import SchemaData.Name

/-!
# SchemaData.SchemaError -- what can be wrong with a schema

The causes for which a schema, or a question about one, is refused, and the
diagnostic that each one shows.  A payload that does not fit its type is none of
these: that is a `Mismatch`.
-/

namespace SchemaData

set_option autoImplicit false

/-- What may not occur twice within one definition. -/
inductive Item
  | symbol
  | field
  | case
deriving DecidableEq

def Item.label : Item → String
  | .symbol => "symbol"
  | .field => "field"
  | .case => "case"

inductive SchemaError
  | invalidName (e : InvalidName)
  /-- A name without a definition. -/
  | unresolvedName (name : Name)
  /-- A second definition under one name. -/
  | duplicateDefinition (name : Name)
  /-- A symbol, field or case that its definition has already. -/
  | duplicate (item : Item) (repeated : String) (owner : Name)
  | emptyEnum (name : Name)
  | emptyVariant (name : Name)
deriving DecidableEq

def SchemaError.message : SchemaError → String
  | .invalidName e => e.message
  | .unresolvedName name => "unresolved name '" ++ name.text ++ "'"
  | .duplicateDefinition name => "duplicate definition of '" ++ name.text ++ "'"
  | .duplicate item repeated owner =>
      "duplicate " ++ item.label ++ " '" ++ repeated ++ "' in '" ++ owner.text ++ "'"
  | .emptyEnum name => "enum '" ++ name.text ++ "' has no symbols"
  | .emptyVariant name => "variant '" ++ name.text ++ "' has no cases"

end SchemaData
