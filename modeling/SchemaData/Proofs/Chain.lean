import Mathlib.Combinatorics.Pigeonhole
import Mathlib.Logic.Function.Iterate
import SchemaData.Module.Head

/-!
# SchemaData.Proofs.Chain -- how far a chain of indirection can lead

`Module.headWithin` unwraps newtypes and follows at most so many references.
`Module.hop` is what it does between two counts: it unwraps and follows one
reference, and it leaves a node where the chain has ended as it is.  So the walk
with `k + j` references left from `e` is the walk with `k` left from the `j`-th
iterate of `hop` (`headWithin_iterate`).

The count never decides the answer of a chain that ends.

* `headWithin_of_le`: once the walk has ended, more references change nothing.
* `exists_loop`: a walk that has not ended after as many references as there are
  definitions has followed one name twice, by the pigeonhole principle, and so it
  repeats itself for ever.
* `head_of_ended`: hence a walk that ends at all ends within the bound of
  `Module.head`.
-/

namespace SchemaData

set_option autoImplicit false

namespace TypeExpr

theorem unwrap_unwrap : (e : TypeExpr) → e.unwrap.unwrap = e.unwrap
  | newtype _ underlying => unwrap_unwrap underlying
  | primitive _ | array _ | map _ | optional _ | enum .. | record .. | variant .. |
    reference _ => rfl

theorem isIndirect_unwrap : (e : TypeExpr) → (∀ n, e.unwrap ≠ .reference n) →
    e.unwrap.isIndirect = false
  | newtype _ underlying, notReference => isIndirect_unwrap underlying notReference
  | reference n, notReference => absurd rfl (notReference n)
  | primitive _, _ | array _, _ | map _, _ | optional _, _ | enum .., _ | record .., _ |
    variant .., _ => rfl

end TypeExpr

/-- The walk did not stop in the middle of a chain. -/
def Head.Ended : Head → Prop
  | settled _ | undefined _ => True
  | looping _ => False

namespace Module

/-- The node after one more reference, if the chain of `e` goes on that far. -/
def hop (m : Module) (e : TypeExpr) : TypeExpr :=
  match e.unwrap with
  | .reference n => (m.get? n).getD (.reference n)
  | h => h

variable {m : Module}

/-! ## One reference -/

/-- Below its newtypes, a node is a reference without a definition, a reference with
one, or bears a payload. -/
theorem unwrap_cases (m : Module) (e : TypeExpr) :
    (∃ n, e.unwrap = .reference n ∧ m.get? n = none) ∨
      (∃ n target, e.unwrap = .reference n ∧ m.get? n = some target) ∨
      e.unwrap.isIndirect = false := by
  by_cases pending : ∃ n, e.unwrap = .reference n
  · obtain ⟨n, unwrapped⟩ := pending
    cases found : m.get? n with
    | none => exact .inl ⟨n, unwrapped, found⟩
    | some target => exact .inr (.inl ⟨n, target, unwrapped, found⟩)
  · have notReference : ∀ n, e.unwrap ≠ .reference n := fun n same => pending ⟨n, same⟩
    exact .inr (.inr (e.isIndirect_unwrap notReference))

theorem headWithin_newtype (k : Nat) (n : Name) (u : TypeExpr) :
    m.headWithin k (.newtype n u) = m.headWithin k u := by
  rw [headWithin, headWithin, TypeExpr.unwrap]

theorem headWithin_undefined {e : TypeExpr} {n : Name} (unwrapped : e.unwrap = .reference n)
    (missing : m.get? n = none) (k : Nat) : m.headWithin k e = .undefined n := by
  unfold headWithin
  simp only [unwrapped, missing]

theorem headWithin_looping {e target : TypeExpr} {n : Name} (unwrapped : e.unwrap = .reference n)
    (found : m.get? n = some target) : m.headWithin 0 e = .looping n := by
  unfold headWithin
  simp only [unwrapped, found]

theorem headWithin_found {e target : TypeExpr} {n : Name} (unwrapped : e.unwrap = .reference n)
    (found : m.get? n = some target) (k : Nat) :
    m.headWithin (k + 1) e = m.headWithin k target := by
  rw [headWithin]
  simp only [unwrapped, found]

theorem headWithin_settled {e : TypeExpr} (direct : e.unwrap.isIndirect = false) (k : Nat) :
    m.headWithin k e = .settled e.unwrap := by
  unfold headWithin
  split
  · rename_i n unwrapped
    rw [unwrapped] at direct
    cases direct
  · rfl

/-- A walk settles at the node below the newtypes, or behind the reference there. -/
theorem settled_cases {k : Nat} {e h : TypeExpr} (settled : m.headWithin k e = .settled h) :
    (e.unwrap = h ∧ h.isIndirect = false) ∨
      ∃ n target j, k = j + 1 ∧ e.unwrap = .reference n ∧ m.get? n = some target ∧
        m.headWithin j target = .settled h := by
  rcases m.unwrap_cases e with ⟨n, unwrapped, missing⟩ | ⟨n, target, unwrapped, found⟩ | direct
  · rw [headWithin_undefined unwrapped missing] at settled
    cases settled
  · cases k with
    | zero =>
        rw [headWithin_looping unwrapped found] at settled
        cases settled
    | succ j =>
        rw [headWithin_found unwrapped found] at settled
        exact .inr ⟨n, target, j, rfl, unwrapped, found, settled⟩
  · rw [headWithin_settled direct] at settled
    cases settled
    exact .inl ⟨rfl, direct⟩

/-! ## The walk as an iteration -/

theorem hop_found {e target : TypeExpr} {n : Name} (unwrapped : e.unwrap = .reference n)
    (found : m.get? n = some target) : m.hop e = target := by
  simp only [hop, unwrapped, found, Option.getD_some]

theorem hop_undefined {e : TypeExpr} {n : Name} (unwrapped : e.unwrap = .reference n)
    (missing : m.get? n = none) : m.hop e = .reference n := by
  simp only [hop, unwrapped, missing, Option.getD_none]

theorem hop_direct {e : TypeExpr} (direct : e.unwrap.isIndirect = false) :
    m.hop e = e.unwrap := by
  unfold hop
  split
  · rename_i n unwrapped
    rw [unwrapped] at direct
    cases direct
  · rfl

theorem headWithin_succ (k : Nat) (e : TypeExpr) :
    m.headWithin (k + 1) e = m.headWithin k (m.hop e) := by
  rcases m.unwrap_cases e with ⟨n, unwrapped, missing⟩ | ⟨n, target, unwrapped, found⟩ | direct
  · rw [hop_undefined unwrapped missing, headWithin_undefined unwrapped missing,
      headWithin_undefined rfl missing]
  · rw [hop_found unwrapped found, headWithin_found unwrapped found]
  · rw [hop_direct direct, headWithin_settled direct, headWithin_settled, e.unwrap_unwrap]
    rwa [e.unwrap_unwrap]

theorem headWithin_iterate (k j : Nat) (e : TypeExpr) :
    m.headWithin (k + j) e = m.headWithin k (m.hop^[j] e) := by
  induction j generalizing e with
  | zero => rfl
  | succ j ih => rw [← Nat.add_assoc, headWithin_succ, ih, Function.iterate_succ_apply]

theorem headWithin_succ_of_ended {k : Nat} {e : TypeExpr} (ended : (m.headWithin k e).Ended) :
    m.headWithin (k + 1) e = m.headWithin k e := by
  rcases m.unwrap_cases e with ⟨n, unwrapped, missing⟩ | ⟨n, target, unwrapped, found⟩ | direct
  · rw [headWithin_undefined unwrapped missing, headWithin_undefined unwrapped missing]
  · cases k with
    | zero =>
        rw [headWithin_looping unwrapped found] at ended
        exact ended.elim
    | succ k =>
        rw [headWithin_found unwrapped found] at ended
        rw [headWithin_found unwrapped found, headWithin_found unwrapped found,
          headWithin_succ_of_ended ended]
  · rw [headWithin_settled direct, headWithin_settled direct]

/-- Once the walk has ended, more references change nothing. -/
theorem headWithin_of_le {k l : Nat} {e : TypeExpr} (le : k ≤ l)
    (ended : (m.headWithin k e).Ended) : m.headWithin l e = m.headWithin k e := by
  induction l, le using Nat.le_induction with
  | base => rfl
  | succ l _ ih => rw [headWithin_succ_of_ended (ih ▸ ended), ih]

/-! ## Loops -/

/-- A walk that has not ended stands before a defined reference. -/
theorem exists_of_not_ended {k : Nat} {e : TypeExpr} (going : ¬ (m.headWithin k e).Ended) :
    ∃ n target, m.get? n = some target ∧ (m.hop^[k] e).unwrap = .reference n := by
  rw [← Nat.zero_add k, headWithin_iterate] at going
  rcases m.unwrap_cases (m.hop^[k] e) with
    ⟨n, unwrapped, missing⟩ | ⟨n, target, unwrapped, found⟩ | direct
  · rw [headWithin_undefined unwrapped missing] at going
    exact absurd trivial going
  · exact ⟨n, target, found, unwrapped⟩
  · rw [headWithin_settled direct] at going
    exact absurd trivial going

/-- **A walk that goes on after as many references as there are definitions is in a
loop.**  It comes to a node where it has been. -/
theorem exists_loop {e : TypeExpr} (going : ¬ (m.headWithin m.size e).Ended) :
    ∃ i d, 0 < d ∧ i + d ≤ m.size ∧ m.hop^[i + d + 1] e = m.hop^[i + 1] e := by
  have before : ∀ k : Fin (m.size + 1), ¬ (m.headWithin k e).Ended := fun k ended =>
    going (headWithin_of_le (Nat.lt_succ_iff.1 k.isLt) ended ▸ ended)
  choose name target found unwrapped using fun k => exists_of_not_ended (before k)
  have defined : ∀ k ∈ Finset.univ, name k ∈ m.names.toFinset := by
    intro k _
    rw [List.mem_toFinset, ← contains_iff_mem_names, contains_iff]
    exact ⟨_, found k⟩
  have few : m.names.toFinset.card < (Finset.univ : Finset (Fin (m.size + 1))).card := by
    have distinct := m.names.toFinset_card_le
    have count : m.names.length = m.size := m.definitions.length_names
    rw [Finset.card_univ, Fintype.card_fin]
    omega
  obtain ⟨i, -, j, -, ne, same⟩ := Finset.exists_ne_map_eq_of_card_lt_of_maps_to few defined
  -- The later of the two visits is the one that closes the loop.
  have close : ∀ i j : Fin (m.size + 1), i < j → name i = name j →
      ∃ i d, 0 < d ∧ i + d ≤ m.size ∧ m.hop^[i + d + 1] e = m.hop^[i + 1] e := by
    intro i j less same
    refine ⟨i, j - i, by omega, by omega, ?_⟩
    rw [Nat.add_sub_cancel' (Nat.le_of_lt less), Function.iterate_succ_apply',
      Function.iterate_succ_apply', hop, hop, unwrapped, unwrapped, same]
  rcases Nat.lt_or_gt_of_ne (fun e => ne (Fin.ext e)) with less | less
  · exact close i j less same
  · exact close j i less same.symm

theorem not_ended_of_not_ended_size {e : TypeExpr} (going : ¬ (m.headWithin m.size e).Ended)
    (k : Nat) : ¬ (m.headWithin k e).Ended := by
  obtain ⟨i, d, positive, small, loop⟩ := exists_loop going
  induction k using Nat.strongRecOn with
  | ind k ih =>
      by_cases early : k ≤ m.size
      · exact fun ended => going (headWithin_of_le early ended ▸ ended)
      · -- Beyond the bound, the walk is where it was one round of the loop before.
        obtain ⟨r, rfl⟩ : ∃ r, k = r + (i + d + 1) := ⟨k - (i + d + 1), by omega⟩
        have back := ih (r + (i + 1)) (by omega)
        rwa [headWithin_iterate, ← loop, ← headWithin_iterate] at back

/-- **A walk that ends at all ends within the bound of `head`.** -/
theorem head_of_ended {k : Nat} {e : TypeExpr} (ended : (m.headWithin k e).Ended) :
    m.head e = m.headWithin k e := by
  have bounded : (m.headWithin m.size e).Ended := by
    by_contra going
    exact not_ended_of_not_ended_size going k ended
  rcases Nat.le_total k m.size with le | le
  · exact headWithin_of_le (Nat.le_succ_of_le le) ended
  · rw [head, headWithin_of_le (Nat.le_succ _) bounded, headWithin_of_le le bounded]

theorem head_eq_settled_iff {e h : TypeExpr} :
    m.head e = .settled h ↔ ∃ k, m.headWithin k e = .settled h := by
  constructor
  · exact fun same => ⟨m.size + 1, same⟩
  · rintro ⟨k, same⟩
    rw [head_of_ended (k := k) (same ▸ trivial), same]

theorem head_newtype (n : Name) (u : TypeExpr) : m.head (.newtype n u) = m.head u :=
  headWithin_newtype _ n u

theorem head_of_direct {e : TypeExpr} (direct : e.isIndirect = false) :
    m.head e = .settled e := by
  have unwrapped : e.unwrap = e := by
    cases e with
    | newtype n u => cases direct
    | _ => rfl
  rw [head, headWithin_settled, unwrapped]
  rwa [unwrapped]

/-- A reference has the head of its definition. -/
theorem head_reference_settled_iff {n : Name} {target h : TypeExpr}
    (found : m.get? n = some target) :
    m.head (.reference n) = .settled h ↔ m.head target = .settled h := by
  have next : ∀ k, m.headWithin (k + 1) (.reference n) = m.headWithin k target :=
    headWithin_found rfl found
  rw [head_eq_settled_iff, head_eq_settled_iff]
  constructor
  · rintro ⟨k, same⟩
    refine ⟨k, ?_⟩
    rw [← next, headWithin_succ_of_ended (same ▸ trivial), same]
  · rintro ⟨k, same⟩
    exact ⟨k + 1, by rw [next, same]⟩

end Module

end SchemaData
