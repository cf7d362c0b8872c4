import SchemaData.Proofs.Acyclic

/-!
# SchemaData.Proofs.Cycles -- the recursive names are those on cycles

One defined name refers to another when a reference to it stands anywhere in its definition
(`Module.RefersTo`), under containers, newtypes, fields and parameters of any depth.  A name
is on a cycle when it refers to itself by one such step or more.

* `mem_recursiveNames_iff`: `Module.recursiveNames` lists exactly the names on cycles.  What
  the search lists is reached from where it began (`reachable_sound`), and it misses nothing
  (`reachable_complete`).
* `Search` is the same question for one name, answered turn by turn with a stack and a set of
  visited names.  A turn keeps `Search.Sound` and makes `Search.left` smaller
  (`turn_of_sound`): a visited name is dropped from the stack (`Sound.dropped`), and any other
  one is exchanged for at most as many names as there are, but only once (`Sound.pushed`,
  `left_of_pushed`).  So every search ends (`answer_of_sound`).

`recursiveNames_exact` says both.
-/

namespace SchemaData

set_option autoImplicit false

namespace TypeExpr

theorem mem_references_iff {e : TypeExpr} {n : Name} :
    n ∈ e.references ↔ (reference n).StandsIn e := by
  rw [← mem_nodes_iff, references, List.mem_filterMap]
  constructor
  · rintro ⟨d, member, same⟩
    split at same
    · cases same
      exact member
    · cases same
  · exact fun member => ⟨_, member, rfl⟩

end TypeExpr

namespace Module

/-- Both names are defined, and a reference to the second stands in the definition of the
first. -/
def RefersTo (m : Module) (a b : Name) : Prop :=
  m.contains b = true ∧ ∃ e, m.get? a = some e ∧ (TypeExpr.reference b).StandsIn e

variable {m : Module}

theorem mem_successors_iff {a b : Name} : b ∈ m.successors a ↔ m.RefersTo a b := by
  unfold successors RefersTo
  cases m.get? a with
  | none => simp
  | some e => simp [TypeExpr.mem_references_iff, and_comm]

end Module

/-! ## What a search lists -/

section Search

variable {α : Type} [DecidableEq α]

/-- What a search lists is reached from a pending element. -/
theorem reachable_sound (next : α → List α) (left pending : List α) :
    ∀ a ∈ reachable next left pending,
      ∃ b ∈ pending, Relation.ReflTransGen (fun a b => b ∈ next a) b a := by
  fun_induction reachable next left pending with
  | case1 left =>
      intro x listed
      cases listed
  | case2 left a pending inside ih =>
      intro x listed
      rcases List.mem_cons.1 listed with rfl | listed
      · exact ⟨x, List.mem_cons_self, .refl⟩
      · obtain ⟨b, waiting, path⟩ := ih x listed
        rcases List.mem_append.1 waiting with follows | waiting
        · exact ⟨a, List.mem_cons_self, .head follows path⟩
        · exact ⟨b, List.mem_cons_of_mem _ waiting, path⟩
  | case3 left a pending outside ih =>
      intro x listed
      obtain ⟨b, waiting, path⟩ := ih x listed
      exact ⟨b, List.mem_cons_of_mem _ waiting, path⟩

/-! ## A search turn by turn -/

/-- A search that is under way. -/
structure Search (α : Type) where
  visited : List α
  /-- The stack of the elements that wait, the top first. -/
  waiting : List α

namespace Search

/-- The search for a way back to an element begins with its successors. -/
def start (next : α → List α) (target : α) : Search α := ⟨[], (next target).reverse⟩

/-- One turn.  The search is over when the stack is empty or the target on top of it; an
element that was visited is dropped, and the successors of any other one are pushed. -/
def turn (next : α → List α) (target : α) (s : Search α) : Bool ⊕ Search α :=
  match s.waiting with
  | [] => .inl false
  | a :: rest =>
      if a = target then .inl true
      else if a ∈ s.visited then .inr ⟨s.visited, rest⟩
      else .inr ⟨a :: s.visited, (next a).reverse ++ rest⟩

/-- Whether the target was found, if the search is over within so many turns. -/
def answer (next : α → List α) (target : α) : Nat → Search α → Option Bool
  | 0, _ => none
  | turns + 1, s =>
      match s.turn next target with
      | .inl found => some found
      | .inr s' => answer next target turns s'

/-- A bound on the turns that are left, where there are `n` elements. -/
def left (n : Nat) (s : Search α) : Nat :=
  s.waiting.length + (n - s.visited.length) * n

omit [DecidableEq α] in
/-- What holds of a search on its way: what it has to do with leads there from the target, it
did not find the target yet, and no successor of the target or of a visited element is
forgotten. -/
structure Sound (next : α → List α) (target : α) (domain : List α) (s : Search α) : Prop where
  reached : ∀ a ∈ s.waiting, Relation.TransGen (fun a b => b ∈ next a) target a
  missed : target ∉ s.visited
  first : ∀ b ∈ next target, b ∈ s.visited ∨ b ∈ s.waiting
  closed : ∀ a ∈ s.visited, ∀ b ∈ next a, b ∈ s.visited ∨ b ∈ s.waiting
  distinct : s.visited.Nodup
  inside : ∀ a, a ∈ s.visited ∨ a ∈ s.waiting → a ∈ domain

variable {next : α → List α} {target a : α} {domain visited rest : List α}

omit [DecidableEq α] in
/-- Where nothing waits, the visited elements are all that the target leads to. -/
theorem Sound.not_cycle (sound : Sound next target domain ⟨visited, []⟩) :
    ¬ Relation.TransGen (fun a b => b ∈ next a) target target := by
  have all : ∀ b, Relation.TransGen (fun a b => b ∈ next a) target b → b ∈ visited := by
    intro b path
    induction path with
    | single follows => simpa using sound.first _ follows
    | tail _ follows ih => simpa using sound.closed _ ih _ follows
  intro cycle
  exact sound.missed (all target cycle)

omit [DecidableEq α] in
/-- A visited element can be dropped. -/
theorem Sound.dropped (sound : Sound next target domain ⟨visited, a :: rest⟩)
    (again : a ∈ visited) : Sound next target domain ⟨visited, rest⟩ := by
  have kept : ∀ b, b ∈ visited ∨ b ∈ a :: rest → b ∈ visited ∨ b ∈ rest := by
    rintro b (old | waiting)
    · exact .inl old
    · rcases List.mem_cons.1 waiting with rfl | waiting
      · exact .inl again
      · exact .inr waiting
  obtain ⟨reached, missed, first, closed, distinct, inside⟩ := sound
  refine ⟨(List.forall_mem_cons.1 reached).2, missed, ?_, ?_, distinct, ?_⟩
  · intro b follows
    exact kept b (first b follows)
  · intro x old b follows
    exact kept b (closed x old b follows)
  · intro b held
    exact inside b (held.imp_right (List.mem_cons_of_mem a))

section Bounded

variable (within : ∀ a, ∀ b ∈ next a, b ∈ domain) (few : ∀ a, (next a).length ≤ domain.length)

include within

omit [DecidableEq α] in
theorem sound_start : (start next target).Sound next target domain where
  reached a waiting := .single (List.mem_reverse.1 waiting)
  missed := List.not_mem_nil
  first b follows := .inr (List.mem_reverse.2 follows)
  closed := nofun
  distinct := List.nodup_nil
  inside := by
    rintro a (visited | waiting)
    · cases visited
    · exact within target a (List.mem_reverse.1 waiting)

omit [DecidableEq α] in
/-- An element can be visited when its successors wait in its place. -/
theorem Sound.pushed (sound : Sound next target domain ⟨visited, a :: rest⟩)
    (other : a ≠ target) (new : a ∉ visited) :
    Sound next target domain ⟨a :: visited, (next a).reverse ++ rest⟩ := by
  have kept : ∀ b, b ∈ visited ∨ b ∈ a :: rest →
      b ∈ a :: visited ∨ b ∈ (next a).reverse ++ rest := by
    intro b held
    simp only [List.mem_cons, List.mem_append] at held ⊢
    tauto
  obtain ⟨reached, missed, first, closed, distinct, inside⟩ := sound
  obtain ⟨path, reached⟩ := List.forall_mem_cons.1 reached
  refine ⟨?_, ?_, ?_, ?_, List.nodup_cons.2 ⟨new, distinct⟩, ?_⟩
  · intro b waiting
    rcases List.mem_append.1 waiting with follows | waiting
    · exact path.tail (List.mem_reverse.1 follows)
    · exact reached b waiting
  · simp [missed, Ne.symm other]
  · intro b follows
    exact kept b (first b follows)
  · intro x old b follows
    rcases List.mem_cons.1 old with rfl | old
    · exact .inr (List.mem_append_left _ (List.mem_reverse.2 follows))
    · exact kept b (closed x old b follows)
  · intro b held
    simp only [List.mem_cons, List.mem_append, List.mem_reverse] at held
    rcases held with (rfl | old) | follows | waiting
    · exact inside b (.inr List.mem_cons_self)
    · exact inside b (.inl old)
    · exact within a b follows
    · exact inside b (.inr (List.mem_cons_of_mem a waiting))

include few

omit [DecidableEq α] within in
/-- The element is one of those that were not visited, and it is visited then. -/
theorem left_of_pushed
    (sound : Sound next target domain ⟨a :: visited, (next a).reverse ++ rest⟩) :
    left domain.length ⟨a :: visited, (next a).reverse ++ rest⟩ <
      left domain.length ⟨visited, a :: rest⟩ := by
  have room : (a :: visited).length ≤ domain.length :=
    (List.subperm_of_subset sound.distinct fun b old => sound.inside b (.inl old)).length_le
  obtain ⟨spare, count⟩ : ∃ k, domain.length = visited.length + (k + 1) :=
    ⟨domain.length - (visited.length + 1), by simp at room; omega⟩
  have pushed := few a
  simp only [left, List.length_append, List.length_reverse, List.length_cons]
  rw [show domain.length - (visited.length + 1) = spare by omega,
    show domain.length - visited.length = spare + 1 by omega, Nat.succ_mul]
  omega

/-- **One turn** ends the search with the right answer, or it goes on and comes nearer to the
end. -/
theorem turn_of_sound {s : Search α} (sound : s.Sound next target domain) :
    match s.turn next target with
    | .inl found => found = true ↔ Relation.TransGen (fun a b => b ∈ next a) target target
    | .inr s' => s'.Sound next target domain ∧ s'.left domain.length < s.left domain.length := by
  obtain ⟨visited, waiting⟩ := s
  cases waiting with
  | nil =>
      simp only [turn, Bool.false_eq_true, false_iff]
      exact sound.not_cycle
  | cons a rest =>
      by_cases found : a = target
      · subst found
        simp only [turn, if_true, true_iff]
        exact sound.reached a List.mem_cons_self
      by_cases again : a ∈ visited
      · simp only [turn, if_neg found, if_pos again]
        refine ⟨sound.dropped again, ?_⟩
        simp only [left, List.length_cons]
        omega
      · simp only [turn, if_neg found, if_neg again]
        have pushed := sound.pushed within found again
        exact ⟨pushed, left_of_pushed few pushed⟩

/-- **Every search ends**, and with the right answer. -/
theorem answer_of_sound {turns : Nat} {s : Search α} (sound : s.Sound next target domain)
    (enough : s.left domain.length < turns) :
    ∃ found, answer next target turns s = some found ∧
      (found = true ↔ Relation.TransGen (fun a b => b ∈ next a) target target) := by
  induction turns generalizing s with
  | zero => omega
  | succ turns ih =>
      have after := turn_of_sound within few sound
      rw [answer]
      cases result : s.turn next target with
      | inl found =>
          rw [result] at after
          exact ⟨found, rfl, after⟩
      | inr s' =>
          rw [result] at after
          exact ih after.1 (by omega)

end Bounded

end Search

end Search

namespace Module

variable {m : Module}

/-- The defined names to which the definition of a name refers, ascending and each once. -/
def edges (m : Module) (n : Name) : List Name :=
  match m.get? n with
  | some e => (referredNames e).filter m.contains
  | none => []

theorem mem_edges_iff {a b : Name} : b ∈ m.edges a ↔ m.RefersTo a b := by
  unfold edges RefersTo
  cases m.get? a with
  | none => simp
  | some e => simp [mem_referredNames, TypeExpr.mem_references_iff, and_comm]

theorem names_ascending (m : Module) : m.names.Pairwise (· < ·) :=
  List.pairwise_map.2 m.definitions.ascending

theorem nodup_edges (n : Name) : (m.edges n).Nodup := by
  have distinct : ∀ e, (referredNames e).Nodup := fun e =>
    Sorted.nodup_of_ascending Name.lt_irrefl (NameMap.ascending _)
  unfold edges
  cases m.get? n with
  | none => exact List.nodup_nil
  | some e => exact (distinct e).filter _

/-- The listed names are exactly those that refer to themselves by one step or more. -/
theorem mem_recursiveNames_iff {n : Name} :
    n ∈ m.recursiveNames ↔ Relation.TransGen m.RefersTo n n := by
  have steps : (fun a b => b ∈ m.successors a) = m.RefersTo := by
    funext a b
    exact propext mem_successors_iff
  constructor
  · intro listed
    rw [recursiveNames, List.mem_filter, decide_eq_true_iff] at listed
    obtain ⟨b, follows, path⟩ := reachable_sound m.successors _ _ n listed.2
    rw [steps] at path
    exact .head' (mem_successors_iff.1 follows) path
  · rw [← steps]
    exact mem_recursiveNames_of_cycle

/-- **The recursive names are exactly those on cycles of references**, in ascending order.
The search from any name ends on every module, whatever its references, within a number of
turns that is known beforehand, and it finds its way back for these names alone. -/
theorem recursiveNames_exact (m : Module) :
    (∀ n, n ∈ m.recursiveNames ↔ Relation.TransGen m.RefersTo n n) ∧
      m.recursiveNames.Pairwise (· < ·) ∧
      ∀ n turns, m.size * (m.size + 1) < turns →
        Search.answer m.edges n turns (.start m.edges n) =
          some (decide (n ∈ m.recursiveNames)) := by
  refine ⟨fun n => mem_recursiveNames_iff, m.names_ascending.filter _, fun n turns enough => ?_⟩
  have count : m.names.length = m.size := m.definitions.length_names
  have within : ∀ a, ∀ b ∈ m.edges a, b ∈ m.names := fun a b follows =>
    (m.contains_iff_mem_names b).1 (mem_edges_iff.1 follows).1
  have few : ∀ a, (m.edges a).length ≤ m.names.length := fun a =>
    (List.subperm_of_subset (nodup_edges a) (within a)).length_le
  have begun : (Search.start m.edges n).left m.names.length ≤ m.size * (m.size + 1) := by
    have pushed := few n
    simp only [Search.left, Search.start, List.length_reverse, List.length_nil, Nat.sub_zero]
    rw [Nat.mul_succ, ← count]
    omega
  obtain ⟨found, answered, right⟩ :=
    Search.answer_of_sound within few (Search.sound_start within) (begun.trans_lt enough)
  have steps : (fun a b => b ∈ m.edges a) = m.RefersTo := by
    funext a b
    exact propext mem_edges_iff
  rw [steps, ← mem_recursiveNames_iff] at right
  rw [answered, Bool.eq_iff_iff.2 (right.trans decide_eq_true_iff.symm)]

end Module

end SchemaData
