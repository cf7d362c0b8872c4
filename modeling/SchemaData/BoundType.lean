import SchemaData.Module
import SchemaData.TypeExpr.Dump

/-!
# SchemaData.BoundType -- a type together with its module

References in a type node mean something only within a module.  An `Instance` is
a module with a serial number that tells it from other instances, also from those
with the same definitions; a `BoundType` is a node bound to an instance.  Two
bound types are equal when they have the same node in the same instance.

The instance `Instance.base` has no definitions and serves the primitive types.
-/

namespace SchemaData

set_option autoImplicit false

/-- A module as one of several in use.  Instances with one serial number are one
instance. -/
structure Instance where
  serial : Nat
  module : Module

namespace Instance

/-- The instance for types that refer to nothing. -/
def base : Instance := ⟨0, .empty⟩

instance : BEq Instance := ⟨fun a b => a.serial == b.serial⟩

end Instance

/-- A type node and the instance in which its references find their targets. -/
structure BoundType where
  home : Instance
  expr : TypeExpr

namespace BoundType

/-- The same node in the same instance. -/
instance : BEq BoundType := ⟨fun a b => a.home == b.home && decide (a.expr = b.expr)⟩

def shape (t : BoundType) : Shape := t.expr.shape

def name? (t : BoundType) : Option Name := t.expr.name?

/-- Another node in the same instance. -/
def child (t : BoundType) (e : TypeExpr) : BoundType := ⟨t.home, e⟩

/-- The definition of a name of the instance. -/
def lookup (home : Instance) (n : Name) : Except SchemaError BoundType :=
  (home.module.lookup n).map fun e => ⟨home, e⟩

/-- The definition behind a reference, which may itself be a reference; any other
type is its own resolution. -/
def resolve (t : BoundType) : Except SchemaError BoundType :=
  match t.expr with
  | .reference n => lookup t.home n
  | _ => .ok t

/-- The primitive type of a primitive shape, in the base instance. -/
def ofShape? (s : Shape) : Option BoundType :=
  (TypeExpr.ofShape? s).map fun e => ⟨.base, e⟩

def ofPrimitive (p : Primitive) : BoundType := ⟨.base, .primitive p⟩

/-- The type written out for inspection; the instance is not shown. -/
def dump (t : BoundType) : String := "Type(" ++ t.expr.dump ++ ")"

end BoundType

end SchemaData
