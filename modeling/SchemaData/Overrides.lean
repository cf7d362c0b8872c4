import SchemaData.Generator
import SchemaData.NameMap
import SchemaData.TypeExpr.Dump

/-!
# SchemaData.Overrides -- generators that stand in for types

A table of overrides gives names a generator of their own.  Wherever a node with
such a name is to be drawn, its override is drawn in its place.
-/

namespace SchemaData

set_option autoImplicit false

abbrev Overrides (σ : Type) := NameMap (Generator σ Value)

/-- The table written out for inspection: its names, in the order of their texts. -/
def Overrides.dump {σ : Type} (table : Overrides σ) : String :=
  let texts := (table.names.map Name.text).mergeSort fun a b => decide (a ≤ b)
  Dump.parts "Overrides" [("names", Dump.listing (texts.map Text.quote))]

end SchemaData
