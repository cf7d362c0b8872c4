import SchemaData.Module

/-!
# SchemaData.Module.Head -- the node that decides about a payload

A newtype says the same as its underlying node, and a reference the same as its
definition.  Unwrapping and following them from a node leads to a node that bears
a payload (`Head.settled`), to a name without a definition (`Head.undefined`), or
on for ever.  The walk counts the references that it follows: one more than there
are definitions is enough for every walk that ends, so a walk that would need
another is in a loop (`Head.looping`), and the name of that reference is reported.
-/

namespace SchemaData

set_option autoImplicit false

/-- The node below all newtypes of a node. -/
def TypeExpr.unwrap : TypeExpr → TypeExpr
  | .newtype _ underlying => unwrap underlying
  | e => e

inductive Head
  /-- A node that is neither a newtype nor a reference. -/
  | settled (e : TypeExpr)
  | undefined (n : Name)
  | looping (n : Name)

namespace Module

/-- The head of a node, reached by following at most `left` references. -/
def headWithin (m : Module) (left : Nat) (e : TypeExpr) : Head :=
  match e.unwrap with
  | .reference n =>
      match m.get? n with
      | none => .undefined n
      | some target =>
          match left with
          | 0 => .looping n
          | left + 1 => headWithin m left target
  | h => .settled h

/-- The head of a node. -/
def head (m : Module) (e : TypeExpr) : Head :=
  m.headWithin (m.size + 1) e

end Module

end SchemaData
