import Mathlib.Data.List.Basic
import SchemaData.Value

/-!
# SchemaData.Proofs.Inside -- the values inside a payload

A composite payload holds values directly (`Payload.items`), and these hold others
(`Payload.Nested`).  `Payload.inductionOnItems` proves a statement about all payloads
from the step that goes from the items of a payload to the payload.

`Payload.erased` puts one type in the place of every type that a value inside a
payload claims.  Two payloads are the same data exactly when they are equal after
that.
-/

namespace SchemaData

set_option autoImplicit false

namespace Payload

/-- The values that a payload holds directly, in order. -/
def items : Payload → List Value
  | scalar _ | enum _ => []
  | array vs | record vs | variant _ vs => vs
  | map es => es.map Prod.snd
  | optional content => content.toList

/-- A value that stands anywhere inside a payload. -/
inductive Nested : Payload → Value → Prop
  | direct {p : Payload} {v : Value} : v ∈ p.items → Nested p v
  | deeper {p : Payload} {v w : Value} : v ∈ p.items → Nested v.payload w → Nested p w

theorem sizeOf_payload_lt (v : Value) : sizeOf v.payload < sizeOf v := by
  cases v
  simp only [Typed.mk.sizeOf_spec]
  omega

theorem sizeOf_lt_of_mem_items {p : Payload} {v : Value} (inside : v ∈ p.items) :
    sizeOf v.payload < sizeOf p := by
  have smaller := sizeOf_payload_lt v
  cases p with
  | scalar s | enum s => simp [items] at inside
  | array vs | record vs | variant c vs =>
      have member : sizeOf v < sizeOf vs := List.sizeOf_lt_of_mem inside
      simp only [array.sizeOf_spec, record.sizeOf_spec, variant.sizeOf_spec]
      omega
  | map es =>
      obtain ⟨⟨k, w⟩, member, rfl⟩ := List.mem_map.1 inside
      have entry : sizeOf (k, w) < sizeOf es := List.sizeOf_lt_of_mem member
      simp only [Prod.mk.sizeOf_spec] at entry
      simp only [map.sizeOf_spec]
      have : sizeOf w.payload < sizeOf w := smaller
      omega
  | optional content =>
      cases content with
      | none => simp [items] at inside
      | some w =>
          obtain rfl : v = w := by simpa [items] using inside
          simp only [optional.sizeOf_spec, Option.some.sizeOf_spec]
          omega

/-- Induction from the items of a payload to the payload. -/
theorem inductionOnItems {motive : Payload → Prop}
    (step : ∀ p, (∀ v ∈ p.items, motive v.payload) → motive p) (p : Payload) : motive p :=
  step p fun v _inside => inductionOnItems step v.payload
termination_by sizeOf p
decreasing_by exact sizeOf_lt_of_mem_items _inside

/-- What holds of the items, and of everything nested in them, holds of everything
nested in the payload. -/
theorem forall_nested {p : Payload} {P : Value → Prop}
    (inside : ∀ v ∈ p.items, P v ∧ ∀ w, v.payload.Nested w → P w) : ∀ w, p.Nested w → P w := by
  rintro w (member | ⟨member, deeper⟩)
  · exact (inside w member).1
  · exact (inside _ member).2 w deeper

/-! ## Data without types -/

/-- The type that stands in the place of all others. -/
def anyType : BoundType := .ofPrimitive .bool

mutual

/-- The payload with one type in the place of every type that a value inside it
claims. -/
def erased : Payload → Payload
  | scalar s => scalar s
  | array vs => array (erasedAll vs)
  | map es => map (erasedEntries es)
  | optional none => optional none
  | optional (some ⟨_, p⟩) => optional (some ⟨anyType, erased p⟩)
  | enum s => enum s
  | record vs => record (erasedAll vs)
  | variant c vs => variant c (erasedAll vs)
termination_by structural p => p

def erasedAll : List (Typed Payload) → List (Typed Payload)
  | [] => []
  | ⟨_, p⟩ :: vs => ⟨anyType, erased p⟩ :: erasedAll vs
termination_by structural vs => vs

def erasedEntries : List (String × Typed Payload) → List (String × Typed Payload)
  | [] => []
  | (k, ⟨_, p⟩) :: es => (k, ⟨anyType, erased p⟩) :: erasedEntries es
termination_by structural es => es

end

end Payload

/-- The value with its own type and all types inside it replaced by one. -/
def Value.erased (v : Value) : Value := ⟨Payload.anyType, v.payload.erased⟩

theorem Value.erased_congr {v w : Value} (same : v.payload.erased = w.payload.erased) :
    Value.erased v = Value.erased w := by
  rw [Value.erased, Value.erased, same]

namespace Payload

theorem erasedAll_eq (vs : List Value) : erasedAll vs = vs.map Value.erased := by
  induction vs with
  | nil => rfl
  | cons v vs ih => rw [erasedAll, ih, List.map_cons, Value.erased]

theorem erasedEntries_eq (es : List (String × Value)) :
    erasedEntries es = es.map fun e => (e.1, e.2.erased) := by
  induction es with
  | nil => rfl
  | cons e es ih => rw [erasedEntries, ih, List.map_cons, Value.erased]

@[simp]
theorem erased_array (vs : List Value) : (array vs).erased = array (vs.map Value.erased) := by
  rw [erased, erasedAll_eq]

@[simp]
theorem erased_map (es : List (String × Value)) :
    (map es).erased = map (es.map fun e => (e.1, e.2.erased)) := by
  rw [erased, erasedEntries_eq]

@[simp]
theorem erased_optional (content : Option Value) :
    (optional content).erased = optional (content.map Value.erased) := by
  cases content <;> rfl

@[simp]
theorem erased_record (vs : List Value) : (record vs).erased = record (vs.map Value.erased) := by
  rw [erased, erasedAll_eq]

@[simp]
theorem erased_variant (c : String) (vs : List Value) :
    (variant c vs).erased = variant c (vs.map Value.erased) := by
  rw [erased, erasedAll_eq]

end Payload

end SchemaData
