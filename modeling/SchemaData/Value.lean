import SchemaData.BoundType
import SchemaData.Sorted

/-!
# SchemaData.Value -- data of a schema

A `Payload` is a datum without a type: a scalar or one of the composite shapes.
A `Value` is a payload together with the type that it claims to satisfy; the
values inside a composite payload carry types of their own.  Nothing here checks a
claim: that is `Conformance`.

The entries of a map ascend by their keys when it is built by `Payload.ofEntries`.
-/

namespace SchemaData

set_option autoImplicit false

/-- A point in time: a day, and the nanoseconds since its beginning. -/
structure Instant where
  /-- Days in the proleptic Gregorian calendar; the first of January of year one is
  day one. -/
  day : Int
  nanos : Nat
deriving DecidableEq

/-- A native datum. -/
inductive Scalar
  | bool (b : Bool)
  | bytes (bytes : List UInt8)
  | int32 (i : Int32)
  | int64 (i : Int64)
  | float32 (x : Float32)
  | float64 (x : Float)
  | string (s : String)
  /-- A day, counted as in `Instant`. -/
  | date (day : Int)
  | datetime (t : Instant)

namespace Scalar

/-- The primitive that the datum belongs to. -/
def kind : Scalar → Primitive
  | bool _ => .bool
  | bytes _ => .bytes
  | int32 _ => .int32
  | int64 _ => .int64
  | float32 _ => .float32
  | float64 _ => .float64
  | string _ => .string
  | date _ => .date
  | datetime _ => .datetime

/-- Floats are compared as numbers: zeros of either sign are equal, and no datum
equals one that is not a number. -/
instance : BEq Scalar := ⟨fun
  | bool a, bool b => a == b
  | bytes a, bytes b => a == b
  | int32 a, int32 b => a == b
  | int64 a, int64 b => a == b
  | float32 a, float32 b => a == b
  | float64 a, float64 b => a == b
  | string a, string b => a == b
  | date a, date b => a == b
  | datetime a, datetime b => a == b
  | _, _ => false⟩

end Scalar

/-- A payload with the type that it claims to satisfy. -/
structure Typed (π : Type) where
  type : BoundType
  payload : π

inductive Payload
  | scalar (s : Scalar)
  | array (items : List (Typed Payload))
  /-- The entries by key. -/
  | map (entries : List (String × Typed Payload))
  | optional (content : Option (Typed Payload))
  /-- The symbol chosen. -/
  | enum (symbol : String)
  /-- One component for each field. -/
  | record (components : List (Typed Payload))
  /-- The case chosen, and one component for each of its parameters. -/
  | variant (case : String) (components : List (Typed Payload))

abbrev Value := Typed Payload

namespace Payload

instance : Inhabited Payload := ⟨.scalar (.bool false)⟩

def shape : Payload → Shape
  | scalar s => .primitive s.kind
  | array _ => .array
  | map _ => .map
  | optional _ => .optional
  | enum _ => .enum
  | record _ => .record
  | variant .. => .variant

def isPrimitive (p : Payload) : Bool := p.shape.isPrimitive

/-- The map of the entries; of several with one key the last one stays. -/
def ofEntries (entries : List (String × Value)) : Payload :=
  map (Sorted.ofList entries)

mutual

/-- Whether two payloads are the same, the types of the values inside included. -/
def same : Payload → Payload → Bool
  | scalar s, scalar s' => s == s'
  | array items, array items' => sameAll items items'
  | map entries, map entries' => sameEntries entries entries'
  | optional none, optional none => true
  | optional (some ⟨t, p⟩), optional (some v) => t == v.type && same p v.payload
  | enum s, enum s' => s == s'
  | record cs, record cs' => sameAll cs cs'
  | variant c cs, variant c' cs' => c == c' && sameAll cs cs'
  | _, _ => false
termination_by structural p => p

def sameAll : List (Typed Payload) → List (Typed Payload) → Bool
  | [], [] => true
  | ⟨t, p⟩ :: vs, w :: ws => t == w.type && same p w.payload && sameAll vs ws
  | _, _ => false
termination_by structural vs => vs

def sameEntries : List (String × Typed Payload) → List (String × Typed Payload) → Bool
  | [], [] => true
  | (k, ⟨t, p⟩) :: vs, (l, w) :: ws =>
      k == l && t == w.type && same p w.payload && sameEntries vs ws
  | _, _ => false
termination_by structural vs => vs

end

end Payload

namespace Value

instance : BEq Value := ⟨fun v w => v.type == w.type && v.payload.same w.payload⟩

/-- A native datum with its own primitive type, in the base instance. -/
def ofScalar (s : Scalar) : Value :=
  ⟨.ofPrimitive s.kind, .scalar s⟩

end Value

end SchemaData
