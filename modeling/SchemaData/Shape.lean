/-!
# SchemaData.Shape -- the kinds of type node

A type node is a primitive, a container of one item type, a named node (enum,
record, variant, newtype) or a reference to a name.  `Shape` is that
classification without the node's content: it is what a diagnostic names, and
what a payload and a node are first compared by.

Shapes are ordered as they are listed in `Shape.all`, primitives first, and each
has one lower-case label (`Shape.label`); `Shape.ofLabel?` reads it back.
-/

namespace SchemaData

set_option autoImplicit false

/-- The shapes that hold one native datum and no further nodes. -/
inductive Primitive
  | bool
  | bytes
  | int32
  | int64
  | float32
  | float64
  | string
  | date
  | datetime
deriving DecidableEq

namespace Primitive

/-- Every primitive, in ascending order. -/
def all : List Primitive :=
  [.bool, .bytes, .int32, .int64, .float32, .float64, .string, .date, .datetime]

def label : Primitive → String
  | .bool => "bool"
  | .bytes => "bytes"
  | .int32 => "int32"
  | .int64 => "int64"
  | .float32 => "float32"
  | .float64 => "float64"
  | .string => "string"
  | .date => "date"
  | .datetime => "datetime"

theorem mem_all (p : Primitive) : p ∈ all := by cases p <;> decide

end Primitive

/-- The shape of a type node. -/
inductive Shape
  | primitive (p : Primitive)
  | array
  | map
  | optional
  | enum
  | record
  | variant
  | newtype
  | reference
deriving DecidableEq

namespace Shape

/-- Every shape, in ascending order: the primitives first. -/
def all : List Shape :=
  Primitive.all.map .primitive ++
    [.array, .map, .optional, .enum, .record, .variant, .newtype, .reference]

/-- The label by which diagnostics and documents name the shape. -/
def label : Shape → String
  | .primitive p => p.label
  | .array => "array"
  | .map => "map"
  | .optional => "optional"
  | .enum => "enum"
  | .record => "record"
  | .variant => "variant"
  | .newtype => "newtype"
  | .reference => "reference"

def isPrimitive : Shape → Bool
  | .primitive _ => true
  | _ => false

/-- Whether nodes of this shape carry a name. -/
def isNamed : Shape → Bool
  | .enum | .record | .variant | .newtype | .reference => true
  | _ => false

/-- The shape with a given label. -/
def ofLabel? (s : String) : Option Shape :=
  all.find? (·.label == s)

/-- The position of a shape in `all`. -/
def rank (s : Shape) : Nat :=
  all.idxOf s

instance : Ord Shape := ⟨fun a b => compare a.rank b.rank⟩

theorem mem_all (s : Shape) : s ∈ all := by
  cases s with
  | primitive p => cases p <;> decide
  | _ => decide

/-- A label names one shape. -/
theorem ofLabel?_label (s : Shape) : ofLabel? s.label = some s := by
  cases s with
  | primitive p => cases p <;> rfl
  | _ => rfl

end Shape

end SchemaData
