import SchemaData.Proofs.Cycles

/-!
# SchemaData.Proofs.WellFormed -- which fault of a module is reported

`checkWellFormed` goes twice through the definitions of a module in the order of their names:
first for their structure, and only then for their references.  What it answers is said here
without the passes.  A module lacks a name for a tree when a reference to the name stands
somewhere in the tree and there is no definition of it (`Module.Lacks`).  The module is refused
for the first definition with a fault of structure (`FirstMalformed`), or, when there is none,
for the first definition that refers to a name without one, and for the least of these names
(`FirstLacking`).

Both passes are walks along an ascending list, where what stands before an element is what is
less (`exists_split_iff_of_pairwise`).  So a walk fails as it does at the least name that fails
(`NameMap.forM_entries_eq_error_iff`, `Module.checkClosed_eq_error_iff`).
-/

namespace SchemaData

set_option autoImplicit false

/-- In a list that is in order, what stands before an element is what precedes it. -/
theorem exists_split_iff_of_pairwise {α : Type} {r : α → α → Prop} {xs : List α}
    (ordered : xs.Pairwise r) (asymm : ∀ a b, r a b → ¬ r b a) {P : α → Prop} {x : α} :
    (∃ before after, xs = before ++ x :: after ∧ ∀ y ∈ before, P y) ↔
      x ∈ xs ∧ ∀ y ∈ xs, r y x → P y := by
  constructor
  · rintro ⟨before, after, rfl, passed⟩
    obtain ⟨-, behind, -⟩ := List.pairwise_append.1 ordered
    refine ⟨by simp, fun y member less => ?_⟩
    rcases List.mem_append.1 member with inBefore | rest
    · exact passed y inBefore
    · rcases List.mem_cons.1 rest with rfl | inAfter
      · exact absurd less (asymm y y less)
      · exact absurd less (asymm x y ((List.pairwise_cons.1 behind).1 y inAfter))
  · rintro ⟨member, passed⟩
    obtain ⟨before, after, rfl⟩ := List.append_of_mem member
    obtain ⟨-, -, across⟩ := List.pairwise_append.1 ordered
    refine ⟨before, after, rfl, fun y inBefore => ?_⟩
    exact passed y (List.mem_append_left _ inBefore) (across y inBefore x List.mem_cons_self)

theorem Name.lt_asymm {a b : Name} (less : a < b) : ¬ b < a :=
  fun greater => Name.lt_irrefl a (Name.lt_trans less greater)

/-- A check of the values of a table, in the order of the names, fails at the least name whose
value fails. -/
theorem NameMap.forM_entries_eq_error_iff {ν ε : Type} {table : NameMap ν}
    {check : ν → Except ε Unit} {error : ε} :
    (table.entries.forM fun d => check d.2) = .error error ↔
      ∃ n v, table.get? n = some v ∧ check v = .error error ∧
        ∀ n' < n, ∀ v', table.get? n' = some v' → check v' = .ok () := by
  have least := fun d : Name × ν =>
    exists_split_iff_of_pairwise (P := fun d' => check d'.2 = .ok ()) (x := d) table.ascending
      fun _ _ => Name.lt_asymm
  rw [forM_eq_error_iff]
  simp only [NameMap.get?_eq_some_iff]
  constructor
  · rintro ⟨before, ⟨n, v⟩, after, split, passed, failed⟩
    obtain ⟨member, earlier⟩ := (least (n, v)).1 ⟨before, after, split, passed⟩
    exact ⟨n, v, member, failed, fun n' less v' member' => earlier (n', v') member' less⟩
  · rintro ⟨n, v, member, failed, earlier⟩
    obtain ⟨before, after, split, passed⟩ :=
      (least (n, v)).2 ⟨member, fun d member' less => earlier d.1 less d.2 member'⟩
    exact ⟨before, (n, v), after, split, passed, failed⟩

namespace Module

variable {m : Module} {e : TypeExpr} {x : Name} {error : SchemaError}

/-- A reference to a name stands in a tree, and the module has no definition of the name. -/
def Lacks (m : Module) (e : TypeExpr) (x : Name) : Prop :=
  (TypeExpr.reference x).StandsIn e ∧ m.get? x = none

theorem lacks_iff : m.Lacks e x ↔ x ∈ referredNames e ∧ m.contains x = false := by
  rw [Lacks, mem_referredNames, TypeExpr.mem_references_iff]
  exact and_congr_right' (Option.isSome_eq_false_iff.trans Option.isNone_iff_eq_none).symm

theorem referredNames_ascending (e : TypeExpr) : (referredNames e).Pairwise (· < ·) :=
  List.pairwise_map.2 (NameMap.ascending _)

theorem checkClosed_eq_ok_iff_lacks : m.checkClosed e = .ok () ↔ ∀ x, ¬ m.Lacks e x := by
  simp [checkClosed_eq_ok_iff, lacks_iff, mem_referredNames]

/-- A tree is refused for the least name that the module lacks for it. -/
theorem checkClosed_eq_error_iff : m.checkClosed e = .error error ↔
    ∃ x, error = .unresolvedName x ∧ m.Lacks e x ∧ ∀ y < x, ¬ m.Lacks e y := by
  have found : ∀ x, (referredNames e).find? (fun n => !m.contains n) = some x ↔
      m.Lacks e x ∧ ∀ y < x, ¬ m.Lacks e y := by
    intro x
    rw [List.find?_eq_some_iff_append,
      exists_split_iff_of_pairwise (referredNames_ascending e) fun _ _ => Name.lt_asymm]
    simp only [lacks_iff, Bool.not_not, Bool.not_eq_true', not_and, Bool.not_eq_false]
    tauto
  simp only [← found, checkClosed]
  cases (referredNames e).find? fun n => !m.contains n with
  | none => simp
  | some x => simp [eq_comm]

/-! ## The two passes -/

/-- The first definition with a fault of structure has this one. -/
def FirstMalformed (m : Module) (error : SchemaError) : Prop :=
  ∃ n e, m.get? n = some e ∧ e.checkStructure = .error error ∧
    ∀ n' < n, ∀ e', m.get? n' = some e' → e'.checkStructure = .ok ()

/-- The name is the least that is lacking for the first definition for which one is. -/
def FirstLacking (m : Module) (x : Name) : Prop :=
  ∃ n e, m.get? n = some e ∧ m.Lacks e x ∧ (∀ y < x, ¬ m.Lacks e y) ∧
    ∀ n' < n, ∀ e', m.get? n' = some e' → ∀ y, ¬ m.Lacks e' y

theorem firstPass_eq_ok_iff : (m.definitions.entries.forM fun d => d.2.checkStructure) = .ok () ↔
    ∀ n e, m.get? n = some e → e.checkStructure = .ok () := by
  rw [forM_eq_ok_iff, Prod.forall]
  simp only [get?, NameMap.get?_eq_some_iff]

theorem secondPass_eq_ok_iff : (m.definitions.entries.forM fun d => m.checkClosed d.2) = .ok () ↔
    ∀ n e, m.get? n = some e → ∀ x, ¬ m.Lacks e x := by
  rw [forM_eq_ok_iff, Prod.forall]
  simp only [get?, NameMap.get?_eq_some_iff, checkClosed_eq_ok_iff_lacks]

theorem secondPass_eq_error_iff :
    (m.definitions.entries.forM fun d => m.checkClosed d.2) = .error error ↔
      ∃ x, error = .unresolvedName x ∧ m.FirstLacking x := by
  rw [NameMap.forM_entries_eq_error_iff]
  simp only [checkClosed_eq_error_iff, checkClosed_eq_ok_iff_lacks]
  constructor
  · rintro ⟨n, e, found, ⟨x, rfl, lacks, least⟩, earlier⟩
    exact ⟨x, rfl, n, e, found, lacks, least, earlier⟩
  · rintro ⟨x, rfl, n, e, found, lacks, least, earlier⟩
    exact ⟨n, e, found, ⟨x, rfl, lacks, least⟩, earlier⟩

/-- **A module is well formed exactly when the structure of every definition passes and every
reference at any depth of one names a definition.**  Otherwise the first fault of structure is
reported, whatever names are lacking; and where there is none, the least name that is lacking
for the first definition for which one is. -/
theorem checkWellFormed_exact (m : Module) :
    (m.checkWellFormed = .ok () ↔ ∀ n e, m.get? n = some e → e.checkStructure = .ok () ∧
        ∀ x, (TypeExpr.reference x).StandsIn e → ∃ target, m.get? x = some target) ∧
      ∀ error, m.checkWellFormed = .error error ↔ m.FirstMalformed error ∨
        (∀ n e, m.get? n = some e → e.checkStructure = .ok ()) ∧
          ∃ x, error = .unresolvedName x ∧ m.FirstLacking x := by
  constructor
  · rw [checkWellFormed, seq_eq_ok_iff, firstPass_eq_ok_iff, secondPass_eq_ok_iff]
    simp only [Lacks, not_and, ← ne_eq, Option.ne_none_iff_exists']
    exact ⟨fun ⟨structures, closed⟩ n e found => ⟨structures n e found, closed n e found⟩,
      fun each => ⟨fun n e found => (each n e found).1, fun n e found => (each n e found).2⟩⟩
  · intro error
    rw [checkWellFormed, seq_eq_error_iff, firstPass_eq_ok_iff, secondPass_eq_error_iff,
      NameMap.forM_entries_eq_error_iff]
    rfl

end Module

namespace Example

def early : Name := ⟨"t", "Early", by decide⟩

def late : Name := ⟨"t", "Late", by decide⟩

/-- A dangling reference, and behind it an enum without symbols. -/
def twoFaulty : Module :=
  ⟨.ofList [(early, .array (.reference ⟨"t", "Gone", by decide⟩)), (late, .enum late [])]⟩

/- The enum is reported, although the reference stands in the lesser definition. -/
example : twoFaulty.checkWellFormed = .error (.emptyEnum late) := by rfl

end Example

end SchemaData
