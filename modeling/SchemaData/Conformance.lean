import SchemaData.Mismatch
import SchemaData.Module.Head
import SchemaData.Value

/-!
# SchemaData.Conformance -- whether a payload fits a type

A scalar fits its own primitive and no other.  A composite payload fits a node of
its shape when its parts fit: the items of containers the item type, the symbol of
an enum the listed ones, and the components of a record, or of the first case with
the chosen name, the declared fields in order.  Newtypes and references are seen
through (`Module.head`).

`findMismatch` reports the first place that does not fit, in the order of items,
keys and declared fields; a wrong number of components comes before the components.
The types that nested values claim play no part.
-/

namespace SchemaData

set_option autoImplicit false

namespace Module

/-- Judges the head of a node, or reports that it has none. -/
def judgeHead (m : Module) (e : TypeExpr) (judge : TypeExpr → Option Mismatch) :
    Option Mismatch :=
  match m.head e with
  | .settled h => judge h
  | .undefined n => some (.atRoot (.unresolvedReference n))
  | .looping n => some (.atRoot (.indirectionCycle n))

mutual

/-- The first place at which a payload does not fit a node that is neither a
newtype nor a reference. -/
def mismatchAtHead (m : Module) (h : TypeExpr) (p : Payload) : Option Mismatch :=
  match h, p with
  | .primitive q, .scalar s =>
      if q = s.kind then none
      else some (.atRoot (.shape (.primitive q) (.primitive s.kind)))
  | .array item, .array items => m.mismatchInItems item 0 items
  | .map item, .map entries => m.mismatchInEntries item entries
  | .optional _, .optional none => none
  | .optional item, .optional (some ⟨_, q⟩) =>
      (m.judgeHead item fun h => m.mismatchAtHead h q).map (.within .content)
  | .enum _ symbols, .enum symbol =>
      if symbol ∈ symbols then none else some (.atRoot (.unknownSymbol symbol))
  | .record _ fields, .record components =>
      if fields.length = components.length then m.mismatchInComponents fields components
      else some (.atRoot (.arity fields.length components.length))
  | .variant _ cases, .variant name components =>
      match cases.find? fun c => c.name = name with
      | none => some (.atRoot (.unknownCase name))
      | some c =>
          Option.map (.within (.case name)) <|
            if c.parameters.length = components.length then
              m.mismatchInComponents c.parameters components
            else some (.atRoot (.arity c.parameters.length components.length))
  | h, p => some (.atRoot (.shape h.shape p.shape))
termination_by structural p

/-- The first place in the items from number `i` on. -/
def mismatchInItems (m : Module) (item : TypeExpr) (i : Nat) :
    List (Typed Payload) → Option Mismatch
  | [] => none
  | ⟨_, p⟩ :: vs =>
      match m.judgeHead item fun h => m.mismatchAtHead h p with
      | some found => some (found.within (.index i))
      | none => m.mismatchInItems item (i + 1) vs
termination_by structural vs => vs

def mismatchInEntries (m : Module) (item : TypeExpr) :
    List (String × Typed Payload) → Option Mismatch
  | [] => none
  | (key, ⟨_, p⟩) :: vs =>
      match m.judgeHead item fun h => m.mismatchAtHead h p with
      | some found => some (found.within (.key key))
      | none => m.mismatchInEntries item vs
termination_by structural vs => vs

/-- The first place in the components, each against the field at its position. -/
def mismatchInComponents (m : Module) (fields : List (Field TypeExpr)) :
    List (Typed Payload) → Option Mismatch
  | [] => none
  | ⟨_, p⟩ :: vs =>
      match fields with
      | [] => none
      | f :: fields =>
          match m.judgeHead f.type fun h => m.mismatchAtHead h p with
          | some found => some (found.within (.field f.name))
          | none => m.mismatchInComponents fields vs
termination_by structural vs => vs

end

/-- The first place at which a payload does not fit a type of the module. -/
def findMismatch (m : Module) (e : TypeExpr) (p : Payload) : Option Mismatch :=
  m.judgeHead e fun h => m.mismatchAtHead h p

end Module

namespace BoundType

def findMismatch (t : BoundType) (p : Payload) : Option Mismatch :=
  t.home.module.findMismatch t.expr p

/-- Whether a payload fits the type. -/
def accepts (t : BoundType) (p : Payload) : Bool :=
  (t.findMismatch p).isNone

end BoundType

/-- Whether a value keeps the claim of its type. -/
def Value.conforms (v : Value) : Bool :=
  v.type.accepts v.payload

end SchemaData
