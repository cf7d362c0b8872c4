import Mathlib.Data.List.Forall2
import SchemaData.Proofs.Inside

/-!
# SchemaData.Proofs.Paired -- payloads of one form

`p.Paired S q` says that two payloads have the same form and the same native data, and
that `S` relates the values at the same places inside them.  What two checks make of two
such payloads, and what two draws give, is said with it: `S` is equality where the two
payloads are to be one, and it forgets what is to play no part.
-/

namespace SchemaData

set_option autoImplicit false

namespace Payload

/-- Two payloads that differ only in the values inside them, and in these only as `S`
admits. -/
inductive Paired (S : Value → Value → Prop) : Payload → Payload → Prop
  | scalar (s : Scalar) : Paired S (.scalar s) (.scalar s)
  | array {vs ws : List Value} : List.Forall₂ S vs ws → Paired S (.array vs) (.array ws)
  | map {es fs : List (String × Value)} :
      es.map Prod.fst = fs.map Prod.fst → List.Forall₂ S (es.map Prod.snd) (fs.map Prod.snd) →
      Paired S (.map es) (.map fs)
  | absent : Paired S (.optional none) (.optional none)
  | present {v w : Value} : S v w → Paired S (.optional (some v)) (.optional (some w))
  | enum (s : String) : Paired S (.enum s) (.enum s)
  | record {vs ws : List Value} : List.Forall₂ S vs ws → Paired S (.record vs) (.record ws)
  | variant (c : String) {vs ws : List Value} :
      List.Forall₂ S vs ws → Paired S (.variant c vs) (.variant c ws)

variable {S : Value → Value → Prop} {p q : Payload}

theorem paired_refl (p : Payload) (each : ∀ v ∈ p.items, S v v) : p.Paired S p := by
  have all : List.Forall₂ S p.items p.items := List.forall₂_same.2 each
  cases p with
  | scalar s => exact .scalar s
  | array vs => exact .array all
  | map es => exact .map rfl all
  | optional content =>
      cases content with
      | none => exact .absent
      | some v => exact .present (each v List.mem_cons_self)
  | enum s => exact .enum s
  | record vs => exact .record all
  | variant c vs => exact .variant c all

/-- Payloads whose parts are the same are the same. -/
theorem eq_of_paired (paired : p.Paired Eq q) : p = q := by
  cases paired with
  | scalar s | enum s | absent => rfl
  | array all | record all | variant c all =>
      rw [List.forall₂_eq_eq_eq] at all
      rw [all]
  | @map es fs keys all =>
      rw [List.forall₂_eq_eq_eq] at all
      rw [List.zip_of_prod keys all, ← List.zip_of_prod rfl rfl]
  | present same => rw [same]

/-! ## Entries -/

/-- Two entries with one key and related values. -/
def EntryPaired (S : Value → Value → Prop) (e f : String × Value) : Prop :=
  e.1 = f.1 ∧ S e.2 f.2

theorem entryPaired_zip {vs ws : List Value} (paired : List.Forall₂ S vs ws)
    (keys : List String) : List.Forall₂ (EntryPaired S) (keys.zip vs) (keys.zip ws) := by
  induction paired generalizing keys with
  | nil =>
      rw [List.zip_nil_right]
      exact .nil
  | cons holds _ ih =>
      cases keys with
      | nil => exact .nil
      | cons k keys => exact .cons ⟨rfl, holds⟩ (ih keys)

theorem entryPaired_insert {es fs : List (String × Value)} {v w : Value}
    (paired : List.Forall₂ (EntryPaired S) es fs) (k : String) (holds : S v w) :
    List.Forall₂ (EntryPaired S) (Sorted.insert k v es) (Sorted.insert k w fs) := by
  induction paired with
  | nil => exact .cons ⟨rfl, holds⟩ .nil
  | @cons e f es fs here rest ih =>
      rw [Sorted.insert, Sorted.insert, ← here.1]
      split
      · exact .cons ⟨rfl, holds⟩ (.cons here rest)
      · split
        · exact .cons ⟨rfl, holds⟩ rest
        · exact .cons here ih

/-- Which entries stay in a table depends on their keys alone. -/
theorem paired_ofEntries {es fs : List (String × Value)}
    (paired : List.Forall₂ (EntryPaired S) es fs) : Paired S (ofEntries es) (ofEntries fs) := by
  have grows : ∀ {table table' : List (String × Value)},
      List.Forall₂ (EntryPaired S) table table' → List.Forall₂ (EntryPaired S)
        (es.foldl (fun table e => Sorted.insert e.1 e.2 table) table)
        (fs.foldl (fun table e => Sorted.insert e.1 e.2 table) table') := by
    induction paired with
    | nil => exact id
    | @cons e f es fs here _ ih =>
        intro table table' tables
        rw [List.foldl_cons, List.foldl_cons, ← here.1]
        exact ih (entryPaired_insert tables e.1 here.2)
  have tables := grows .nil
  refine .map ?_ ?_
  · exact List.forall₂_eq_eq_eq ▸ List.forall₂_map_left_iff.2
      (List.forall₂_map_right_iff.2 (tables.imp fun _ _ => And.left))
  · exact List.forall₂_map_left_iff.2
      (List.forall₂_map_right_iff.2 (tables.imp fun _ _ => And.right))

end Payload

end SchemaData
