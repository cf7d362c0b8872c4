import SchemaData.Module

/-!
# SchemaData.Module.Builder -- modules built definition by definition

A builder collects definitions until one is refused; it then keeps the first
refusal and ignores everything after it.  A definition is refused for its
structure before it is refused for a name that is taken, and a node that is to be
defined under its own name must carry one.
-/

namespace SchemaData

set_option autoImplicit false

namespace Module

/-- One step of building a module. -/
inductive Step
  | define (name : Name) (e : TypeExpr)
  /-- Defines a node under the name that it carries. -/
  | defineNamed (e : TypeExpr)

/-- A module under construction. -/
structure Builder where
  definitions : NameMap TypeExpr
  /-- The first refusal. -/
  error : Option SchemaError

namespace Builder

def start : Builder := ⟨∅, none⟩

/-- The definitions with one more, or the reason for refusing it. -/
def extend (definitions : NameMap TypeExpr) (name : Name) (e : TypeExpr) :
    Except SchemaError (NameMap TypeExpr) := do
  e.checkStructure
  if definitions.contains name then .error (.duplicateDefinition name)
  else .ok (definitions.insert name e)

/-- The definitions after a step, or the reason for refusing it. -/
def attempt (definitions : NameMap TypeExpr) : Step → Except SchemaError (NameMap TypeExpr)
  | .define name e => extend definitions name e
  | .defineNamed e =>
      match e.name? with
      | some name => extend definitions name e
      | none => .error (.invalidName ⟨"", .unnamed e.shape⟩)

/-- The builder after a step; a builder with a refusal stays as it is. -/
def step (b : Builder) (s : Step) : Builder :=
  match b.error with
  | some _ => b
  | none =>
      match attempt b.definitions s with
      | .ok definitions => ⟨definitions, none⟩
      | .error e => ⟨b.definitions, some e⟩

def define (b : Builder) (name : Name) (e : TypeExpr) : Builder :=
  b.step (.define name e)

def defineNamed (b : Builder) (e : TypeExpr) : Builder :=
  b.step (.defineNamed e)

/-- The builder after all the steps in turn. -/
def run (steps : List Step) : Builder :=
  steps.foldl step start

/-- The finished module, or the first refusal. -/
def build (b : Builder) : Except SchemaError Module :=
  match b.error with
  | some e => .error e
  | none => .ok ⟨b.definitions⟩

end Builder

end Module

end SchemaData
