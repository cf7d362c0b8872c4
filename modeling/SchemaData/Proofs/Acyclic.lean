import Mathlib.Order.WellFounded
import Mathlib.Data.Fintype.Order
import SchemaData.Proofs.Reach

/-!
# SchemaData.Proofs.Acyclic -- no cycle of references, no way down without an end

`Module.recursiveNames` searches for the names that lead back to themselves.

* `mem_recursiveNames_of_cycle`: the search misses none of them.  What `reachable`
  lists holds the pending elements and is closed under successors
  (`reachable_complete`), so it holds all that a path leads to.
* `successors_wellFounded`: if some names cut all cycles (`Module.CutBy`), a descent from
  name to name that stops at them ends, because the names are finitely many.
* `leadsApart_wellFounded`: then every such descent from node to node ends too, since
  between two references it goes down one tree.
* `leads_wellFounded`: where no name is recursive, there is nothing to cut.
-/

namespace SchemaData

set_option autoImplicit false

/-! ## What a search lists -/

section Search

variable {α : Type} [DecidableEq α]

/-- A search lists the pending elements of its domain, and whatever it lists it also
follows.  Both are proved together: an element that is taken out of the domain is
listed at once, and its successors are pending from then on. -/
theorem reachable_complete (next : α → List α) (left pending : List α) :
    (∀ a ∈ pending, a ∈ left → a ∈ reachable next left pending) ∧
      ∀ a ∈ reachable next left pending, ∀ b ∈ next a, b ∈ left →
        b ∈ reachable next left pending := by
  fun_induction reachable next left pending with
  | case1 left => exact ⟨nofun, nofun⟩
  | case2 left a pending inside ih =>
      obtain ⟨found, closed⟩ := ih
      have rest : ∀ b ∈ next a ++ pending, b ∈ left → b = a ∨
          b ∈ reachable next (left.erase a) (next a ++ pending) := by
        intro b waiting member
        by_cases same : b = a
        · exact .inl same
        · exact .inr (found b waiting ((List.mem_erase_of_ne same).2 member))
      refine ⟨fun b waiting member => List.mem_cons.2 ?_, fun x listed b follows member =>
        List.mem_cons.2 ?_⟩
      · rcases List.mem_cons.1 waiting with same | waiting
        · exact .inl same
        · exact rest b (List.mem_append_right _ waiting) member
      · rcases List.mem_cons.1 listed with rfl | listed
        · exact rest b (List.mem_append_left _ follows) member
        · by_cases same : b = a
          · exact .inl same
          · exact .inr (closed x listed b follows ((List.mem_erase_of_ne same).2 member))
  | case3 left a pending outside ih =>
      obtain ⟨found, closed⟩ := ih
      refine ⟨fun b waiting member => ?_, closed⟩
      rcases List.mem_cons.1 waiting with rfl | waiting
      · exact absurd member outside
      · exact found b waiting member

end Search

namespace Module

variable {m : Module}

/-! ## Names -/

theorem mem_names_of_mem_successors {n n' : Name} (follows : n' ∈ m.successors n) :
    n' ∈ m.names := by
  unfold successors at follows
  split at follows
  · exact (m.contains_iff_mem_names n').1 (List.mem_filter.1 follows).2
  · cases follows

theorem defined_of_mem_successors {n n' : Name} (follows : n' ∈ m.successors n) : n ∈ m.names := by
  rw [← contains_iff_mem_names, contains_iff]
  cases found : m.get? n with
  | none =>
      rw [successors, found] at follows
      cases follows
  | some e => exact ⟨e, rfl⟩

/-- A name that leads back to itself is found to be recursive. -/
theorem mem_recursiveNames_of_cycle {n : Name}
    (cycle : Relation.TransGen (fun a b => b ∈ m.successors a) n n) : n ∈ m.recursiveNames := by
  obtain ⟨found, closed⟩ := reachable_complete m.successors m.names (m.successors n)
  have listed : ∀ b, Relation.TransGen (fun a b => b ∈ m.successors a) n b →
      b ∈ reachable m.successors m.names (m.successors n) := by
    intro b path
    induction path with
    | single first => exact found _ first (mem_names_of_mem_successors first)
    | tail _ last ih => exact closed _ ih _ last (mem_names_of_mem_successors last)
  obtain ⟨b, -, last⟩ := Relation.TransGen.tail'_iff.1 cycle
  rw [recursiveNames, List.mem_filter, decide_eq_true_iff]
  exact ⟨mem_names_of_mem_successors last, listed n cycle⟩

/-- Every cycle of references goes through one of the names. -/
def CutBy (m : Module) (names : List Name) : Prop :=
  ∀ n, ¬ Relation.TransGen (fun a b => a ∉ names ∧ b ∈ m.successors a) n n

theorem cutBy_of_acyclic (acyclic : m.recursiveNames = []) (names : List Name) :
    m.CutBy names := by
  intro n cycle
  have steps : (fun a b => a ∉ names ∧ b ∈ m.successors a) ≤ fun a b => b ∈ m.successors a :=
    fun _ _ step => step.2
  have found := mem_recursiveNames_of_cycle (Relation.TransGen.mono steps n n cycle)
  rw [acyclic] at found
  cases found

/-- Names cut all cycles if the definitions of the others refer to nothing else. -/
theorem cutBy_of_successors {names : List Name}
    (apart : ∀ n ∈ m.names, n ∉ names → ∀ n' ∈ m.successors n, n' ∈ names) : m.CutBy names := by
  intro n cycle
  obtain ⟨_, ⟨outside, -⟩, -⟩ := Relation.TransGen.head'_iff.1 cycle
  obtain ⟨a, path, outside', follows⟩ := Relation.TransGen.tail'_iff.1 cycle
  exact outside (apart a (defined_of_mem_successors follows) outside' n follows)

/-- Without going on from the names of a cut, every descent from name to name ends. -/
theorem successors_wellFounded {names : List Name} (cut : m.CutBy names) :
    WellFounded fun b a => a ∉ names ∧ b ∈ m.successors a := by
  let below (b a : {n // n ∈ m.names}) : Prop :=
    Relation.TransGen (fun a b => a ∉ names ∧ b ∈ m.successors a) a.1 b.1
  have ends : WellFounded below := by
    have : Finite {n // n ∈ m.names} := List.finite_toSet m.names
    have : IsTrans _ below := ⟨fun _ _ _ first second => second.trans first⟩
    have : Std.Irrefl below := ⟨fun n cycle => cut n cycle⟩
    exact Finite.wellFounded_of_trans_of_irrefl below
  have defined : ∀ n : {n // n ∈ m.names},
      Acc (fun b a => a ∉ names ∧ b ∈ m.successors a) n.1 := by
    intro n
    induction n using ends.induction with
    | h n ih =>
        exact .intro _ fun b follows =>
          ih ⟨b, mem_names_of_mem_successors follows.2⟩ (.single follows)
  refine ⟨fun n => .intro n fun b follows => ?_⟩
  exact defined ⟨b, mem_names_of_mem_successors follows.2⟩

/-! ## Nodes -/

theorem mem_successors {n r : Name} {e target : TypeExpr} (found : m.get? n = some e)
    (refers : .reference r ∈ e.nodes) (defined : m.get? r = some target) :
    r ∈ m.successors n := by
  rw [successors, found]
  refine List.mem_filter.2 ⟨?_, (m.contains_iff r).2 ⟨target, defined⟩⟩
  exact List.mem_filterMap.2 ⟨_, refers, rfl⟩

/-- One step down from a node, but not from a reference to one of the names to its
definition. -/
inductive LeadsApart (m : Module) (names : List Name) : TypeExpr → TypeExpr → Prop
  | child {e c : TypeExpr} : c ∈ e.children → LeadsApart m names e c
  | definition {n : Name} {target : TypeExpr} :
      n ∉ names → m.get? n = some target → LeadsApart m names (.reference n) target

variable {names : List Name}

/-- A tree ends when the references in it do. -/
theorem acc_of_references (e : TypeExpr)
    (references : ∀ r, .reference r ∈ e.nodes →
      Acc (fun c e => m.LeadsApart names e c) (.reference r)) :
    Acc (fun c e => m.LeadsApart names e c) e := by
  induction e using TypeExpr.inductionOnChildren with
  | step e ih =>
      apply Acc.intro
      rintro c (inside | ⟨outside, found⟩)
      · exact ih c inside fun r member => references r (TypeExpr.mem_nodes_below inside member)
      · exact (references _ List.mem_cons_self).inv (.definition outside found)

/-- **Without going on from the names of a cut, every descent from node to node ends.** -/
theorem leadsApart_wellFounded (cut : m.CutBy names) :
    WellFounded fun c e => m.LeadsApart names e c := by
  have references : ∀ n, Acc (fun c e => m.LeadsApart names e c) (.reference n) := by
    intro n
    induction n using (successors_wellFounded cut).induction with
    | h n ih =>
        apply Acc.intro
        rintro target (inside | ⟨outside, found⟩)
        · cases inside
        · refine acc_of_references target fun r member => ?_
          cases defined : m.get? r with
          | none =>
              apply Acc.intro
              rintro _ (inside | ⟨-, found⟩)
              · cases inside
              · rw [defined] at found
                cases found
          | some e => exact ih r ⟨outside, mem_successors found member defined⟩
  exact ⟨fun e => acc_of_references e fun r _ => references r⟩

/-- **Without recursive names, every descent from node to node ends.** -/
theorem leads_wellFounded (acyclic : m.recursiveNames = []) :
    WellFounded fun c e => m.Leads e c := by
  refine Subrelation.wf ?_ (leadsApart_wellFounded (cutBy_of_acyclic acyclic []))
  rintro c e (inside | found)
  · exact .child inside
  · exact .definition List.not_mem_nil found

end Module

end SchemaData
