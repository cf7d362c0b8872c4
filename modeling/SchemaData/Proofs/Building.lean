import Mathlib.Data.List.Induction
import Mathlib.Data.List.Nodup
import SchemaData.Module.Builder
import SchemaData.Proofs.Reach

/-!
# SchemaData.Proofs.Building -- what a run of building steps gives

`Step.fault?` says when a step fails after given ones, without a table: the node has no name
to be defined under, or its structure is refused, or an earlier step took its name.  The
builder holds a table and the first refusal.

* `Collected steps definitions` is the invariant of a run without failures: the table is the
  finite map of what the steps define.  One step keeps it or fails as `Step.fault?` says
  (`attempt_of_passed`, `attempt_of_fault`), and so does a run (`collected_run`,
  `error_of_fault`).
* `noneFails_iff`: whether no step fails does not depend on the order of the steps.

`build_of_steps` is about whole runs: which error is reported, which module is built, what a
built module satisfies, and that the order of the steps plays no part in it.
-/

namespace SchemaData.Module

set_option autoImplicit false

namespace Step

/-- The name under which a step defines its node, if it has one. -/
def name? : Step → Option Name
  | define n _ => some n
  | defineNamed e => e.name?

/-- The node that a step defines. -/
def node : Step → TypeExpr
  | define _ e | defineNamed e => e

/-- Why a step fails after the earlier ones, if it does. -/
def fault? (earlier : List Step) (s : Step) : Option SchemaError :=
  match s.name? with
  | none => some (.invalidName ⟨"", .unnamed s.node.shape⟩)
  | some n =>
      match s.node.checkStructure with
      | .error e => some e
      | .ok () => if some n ∈ earlier.map name? then some (.duplicateDefinition n) else none

/-- A step that does not fail has a new name and a sound node. -/
theorem fault?_eq_none_iff {earlier : List Step} {s : Step} :
    s.fault? earlier = none ↔
      ∃ n, s.name? = some n ∧ s.node.checkStructure = .ok () ∧ some n ∉ earlier.map name? := by
  unfold fault?
  cases s.name? with
  | none => simp
  | some n =>
      cases s.node.checkStructure with
      | error e => simp
      | ok => simp

end Step

/-- None of the steps fails after those before it. -/
def NoneFails (steps : List Step) : Prop :=
  ∀ before s after, steps = before ++ s :: after → s.fault? before = none

/-- The definitions are the finite map of what the steps define. -/
structure Collected (steps : List Step) (definitions : NameMap TypeExpr) : Prop where
  get? : ∀ n e, definitions.get? n = some e ↔ ∃ s ∈ steps, s.name? = some n ∧ s.node = e
  size : definitions.size = steps.length

variable {steps earlier : List Step} {s : Step} {definitions : NameMap TypeExpr}

/-! ## The order of the steps -/

theorem noneFails_concat :
    NoneFails (steps ++ [s]) ↔ NoneFails steps ∧ s.fault? steps = none := by
  constructor
  · intro passes
    refine ⟨fun before t after same => ?_, passes steps s [] rfl⟩
    exact passes before t (after ++ [s]) (by simp [same])
  · rintro ⟨passes, last⟩ before t after same
    rcases List.eq_nil_or_concat after with rfl | ⟨rest, x, rfl⟩
    · obtain ⟨rfl, same⟩ := List.append_inj' same rfl
      obtain rfl : s = t := by simpa using same
      exact last
    · have split : steps ++ [s] = (before ++ t :: rest) ++ [x] := by simp [same]
      exact passes before t rest (List.append_inj' split rfl).1

/-- No step fails exactly when each has a name and a sound node, and no two have one name. -/
theorem noneFails_iff :
    NoneFails steps ↔
      (∀ s ∈ steps, s.name? ≠ none ∧ s.node.checkStructure = .ok ()) ∧
        (steps.map Step.name?).Nodup := by
  induction steps using List.reverseRecOn with
  | nil =>
      refine ⟨fun _ => ⟨nofun, List.nodup_nil⟩, fun _ before s after same => ?_⟩
      simp at same
  | append_singleton steps s ih =>
      rw [noneFails_concat, ih, Step.fault?_eq_none_iff]
      simp only [List.forall_mem_append, List.forall_mem_singleton, List.map_append, List.map_cons,
        List.map_nil, List.nodup_append', List.disjoint_singleton, List.nodup_singleton, true_and]
      constructor
      · rintro ⟨⟨each, distinct⟩, n, named, sound, fresh⟩
        exact ⟨⟨each, by simp [named], sound⟩, distinct, by rwa [named]⟩
      · rintro ⟨⟨each, named, sound⟩, distinct, fresh⟩
        obtain ⟨n, named⟩ := Option.ne_none_iff_exists'.1 named
        exact ⟨⟨each, distinct⟩, n, named, sound, by rwa [named] at fresh⟩

theorem noneFails_of_perm {steps' : List Step} (perm : steps.Perm steps')
    (passes : NoneFails steps) : NoneFails steps' := by
  rw [noneFails_iff] at passes ⊢
  refine ⟨fun s member => passes.1 s (perm.mem_iff.2 member), ?_⟩
  exact (perm.map Step.name?).nodup_iff.1 passes.2

/-- If some step fails, there is a first one. -/
theorem exists_fault (fails : ¬ NoneFails steps) :
    ∃ before s after error, steps = before ++ s :: after ∧ NoneFails before ∧
      s.fault? before = some error := by
  induction steps using List.reverseRecOn with
  | nil => exact absurd (fun before s after same => by simp at same) fails
  | append_singleton steps s ih =>
      by_cases passes : NoneFails steps
      · cases fault : s.fault? steps with
        | none => exact absurd (noneFails_concat.2 ⟨passes, fault⟩) fails
        | some error => exact ⟨steps, s, [], error, rfl, passes, fault⟩
      · obtain ⟨before, t, after, error, rfl, first, fault⟩ := ih passes
        exact ⟨before, t, after ++ [s], error, by simp, first, fault⟩

/-! ## One step -/

theorem Collected.contains_iff (collected : Collected earlier definitions) (n : Name) :
    definitions.contains n = true ↔ some n ∈ earlier.map Step.name? := by
  rw [NameMap.contains, Option.isSome_iff_exists, List.mem_map]
  simp only [collected.get?]
  constructor
  · rintro ⟨e, s, member, named, -⟩
    exact ⟨s, member, named⟩
  · rintro ⟨s, member, named⟩
    exact ⟨s.node, s, member, named, rfl⟩

namespace Builder

theorem attempt_of_named {n : Name} (named : s.name? = some n) :
    attempt definitions s = extend definitions n s.node := by
  cases s with
  | define n' e =>
      obtain rfl : n' = n := Option.some.inj named
      rfl
  | defineNamed e =>
      rw [attempt, show e.name? = some n from named]
      rfl

/-- A step that fails after the earlier ones is refused for that reason. -/
theorem attempt_of_fault {error : SchemaError} (collected : Collected earlier definitions)
    (fault : s.fault? earlier = some error) : attempt definitions s = .error error := by
  unfold Step.fault? at fault
  cases named : s.name? with
  | none =>
      rw [named] at fault
      obtain rfl := Option.some.inj fault
      cases s with
      | define n e => cases named
      | defineNamed e =>
          rw [attempt, show e.name? = none from named]
          rfl
  | some n =>
      rw [attempt_of_named named, extend]
      simp only [named] at fault
      cases structured : s.node.checkStructure with
      | error e =>
          simp only [structured] at fault
          obtain rfl := Option.some.inj fault
          rfl
      | ok =>
          simp only [structured, ← collected.contains_iff n] at fault
          split at fault
          · rename_i taken
            obtain rfl := Option.some.inj fault
            exact if_pos taken
          · cases fault

/-- A step that does not fail adds what it defines. -/
theorem attempt_of_passed (collected : Collected earlier definitions)
    (passed : s.fault? earlier = none) :
    ∃ definitions', attempt definitions s = .ok definitions' ∧
      Collected (earlier ++ [s]) definitions' := by
  obtain ⟨n, named, sound, new⟩ := Step.fault?_eq_none_iff.1 passed
  have fresh : definitions.contains n = false := by
    rw [← Bool.not_eq_true, collected.contains_iff]
    exact new
  refine ⟨definitions.insert n s.node, ?_, ⟨fun n' e => ?_, ?_⟩⟩
  · rw [attempt_of_named named, extend, sound]
    exact if_neg (by simp [fresh])
  · rw [NameMap.get?_insert]
    simp only [List.mem_append, List.mem_singleton]
    by_cases same : n' = n
    · -- No earlier step defines the name, so its node is the one of this step.
      subst same
      rw [if_pos rfl]
      constructor
      · intro stored
        exact ⟨s, .inr rfl, named, Option.some.inj stored⟩
      · rintro ⟨t, member | rfl, named', rfl⟩
        · exact absurd (List.mem_map.2 ⟨t, member, named'⟩) new
        · rfl
    · rw [if_neg same, collected.get?]
      constructor
      · rintro ⟨t, member, found⟩
        exact ⟨t, .inl member, found⟩
      · rintro ⟨t, member | rfl, named', found⟩
        · exact ⟨t, member, named', found⟩
        · rw [named] at named'
          exact absurd (Option.some.inj named').symm same
  · rw [NameMap.size_insert fresh, collected.size, List.length_append, List.length_singleton]

/-! ## A run -/

theorem run_concat (steps : List Step) (s : Step) : run (steps ++ [s]) = (run steps).step s := by
  rw [run, run, List.foldl_append]
  rfl

/-- **A run without failures collects what its steps define.** -/
theorem collected_run (passes : NoneFails steps) :
    (run steps).error = none ∧ Collected steps (run steps).definitions := by
  induction steps using List.reverseRecOn with
  | nil =>
      refine ⟨rfl, ⟨fun n e => ?_, rfl⟩⟩
      exact ⟨nofun, fun ⟨s, member, _⟩ => nomatch member⟩
  | append_singleton steps s ih =>
      obtain ⟨passes, last⟩ := noneFails_concat.1 passes
      obtain ⟨sound, collected⟩ := ih passes
      obtain ⟨definitions', attempted, further⟩ := attempt_of_passed collected last
      have next : run (steps ++ [s]) = ⟨definitions', none⟩ := by
        rw [run_concat, step, sound]
        simp only [attempted]
      rw [next]
      exact ⟨rfl, further⟩

/-- A builder with a refusal keeps it. -/
theorem foldl_step_of_error {b : Builder} {error : SchemaError} (refused : b.error = some error)
    (steps : List Step) : steps.foldl step b = b := by
  induction steps with
  | nil => rfl
  | cons s steps ih =>
      have kept : b.step s = b := by
        rw [step, refused]
      rw [List.foldl_cons, kept, ih]

/-- **The first failure is the error of a run**, whatever follows. -/
theorem error_of_fault {before : List Step} {error : SchemaError} (passes : NoneFails before)
    (fault : s.fault? before = some error) (after : List Step) :
    (run (before ++ s :: after)).error = some error := by
  obtain ⟨sound, collected⟩ := collected_run passes
  have refused : ((run before).step s).error = some error := by
    rw [step, sound]
    simp only [attempt_of_fault collected fault]
  have whole : run (before ++ s :: after) = after.foldl step ((run before).step s) := by
    rw [run, run, List.foldl_append, List.foldl_cons]
  rw [whole, foldl_step_of_error refused, refused]

theorem build_of_noneFails (passes : NoneFails steps) :
    (run steps).build = .ok ⟨(run steps).definitions⟩ := by
  rw [build, (collected_run passes).1]

theorem build_of_fault {before : List Step} {error : SchemaError} (passes : NoneFails before)
    (fault : s.fault? before = some error) (after : List Step) :
    (run (before ++ s :: after)).build = .error error := by
  rw [build, error_of_fault passes fault]

theorem noneFails_of_build {m : Module} (built : (run steps).build = .ok m) : NoneFails steps := by
  by_contra fails
  obtain ⟨before, s, after, error, rfl, passes, fault⟩ := exists_fault fails
  rw [build_of_fault passes fault] at built
  cases built

theorem collected_of_build {m : Module} (built : (run steps).build = .ok m) :
    Collected steps m.definitions := by
  have passes := noneFails_of_build built
  rw [build_of_noneFails passes] at built
  cases built
  exact (collected_run passes).2

/-- A module of sound definitions can be ill formed only for a name without a definition. -/
theorem checkWellFormed_of_sound {m : Module}
    (sound : ∀ n e, m.get? n = some e → e.checkStructure = .ok ()) :
    m.checkWellFormed = .ok () ∨ ∃ x, m.checkWellFormed = .error (.unresolvedName x) := by
  have structures : m.definitions.entries.forM (fun d => d.2.checkStructure) = .ok () :=
    forM_eq_ok_iff.2 fun d member => sound d.1 d.2 (NameMap.get?_eq_some_iff.2 member)
  have references : m.checkWellFormed = m.definitions.entries.forM fun d => m.checkClosed d.2 := by
    rw [checkWellFormed, structures]
    rfl
  rw [references]
  cases closed : m.definitions.entries.forM fun d => m.checkClosed d.2 with
  | ok => exact .inl rfl
  | error error =>
      obtain ⟨-, d, -, -, -, refused⟩ := forM_eq_error_iff.1 closed
      rw [checkClosed] at refused
      split at refused
      · rename_i x _
        cases refused
        exact .inr ⟨x, rfl⟩
      · cases refused

theorem build_of_perm {steps' : List Step} (perm : steps.Perm steps') {m : Module}
    (built : (run steps).build = .ok m) : (run steps').build = .ok m := by
  have collected := collected_of_build built
  have passes := noneFails_of_perm perm (noneFails_of_build built)
  have collected' := (collected_run passes).2
  have tables : (run steps').definitions = m.definitions := by
    refine NameMap.ext_get? fun n => Option.ext fun e => ?_
    rw [collected'.get?, collected.get?]
    simp only [perm.mem_iff]
  rw [build_of_noneFails passes, tables]

/-- **What a run of building steps gives.**

* If a step fails, the error of the first one that does is reported, whatever follows.
* If none fails, a module is built, with one definition for each step, under the name and with
  the node of the step.
* In a module that was built, the structure of all definitions is sound at every depth, so
  that it is well formed but for names without a definition.
* The steps in another order build the same module, or none either. -/
theorem build_of_steps (steps : List Step) :
    (∀ before s after error, steps = before ++ s :: after → NoneFails before →
        s.fault? before = some error → (run steps).build = .error error) ∧
      (NoneFails steps → ∃ m : Module, (run steps).build = .ok m ∧
        (∀ n e, m.get? n = some e ↔ ∃ s ∈ steps, s.name? = some n ∧ s.node = e) ∧
        m.size = steps.length) ∧
      (∀ m : Module, (run steps).build = .ok m →
        (∀ n (e d : TypeExpr), m.get? n = some e → d.StandsIn e → d.checkStructure = .ok ()) ∧
        (m.checkWellFormed = .ok () ∨ ∃ x, m.checkWellFormed = .error (.unresolvedName x))) ∧
      ∀ steps', steps.Perm steps' →
        ∀ m, (run steps).build = .ok m ↔ (run steps').build = .ok m := by
  refine ⟨?_, fun passes => ?_, fun m built => ?_, fun steps' perm m => ?_⟩
  · rintro before s after error rfl passes fault
    exact build_of_fault passes fault after
  · obtain ⟨-, collected⟩ := collected_run passes
    exact ⟨_, build_of_noneFails passes, collected.get?, collected.size⟩
  · have sound : ∀ n e, m.get? n = some e → e.checkStructure = .ok () := by
      intro n e found
      obtain ⟨s, member, -, rfl⟩ := ((collected_of_build built).get? n e).1 found
      exact ((noneFails_iff.1 (noneFails_of_build built)).1 s member).2
    refine ⟨fun n e d found stands => ?_, checkWellFormed_of_sound sound⟩
    exact TypeExpr.checkStructure_of_standsIn (sound n e found) stands
  · exact ⟨build_of_perm perm, build_of_perm perm.symm⟩

/-- A node without a name is refused for that, whatever is wrong with it, and what follows
does not matter. -/
example :
    let a : Name := ⟨"t", "A", by decide⟩
    (run [.define a (.enum a ["x"]), .defineNamed (.array (.enum a [])),
      .define a (.enum a [])]).build = .error (.invalidName ⟨"", .unnamed .array⟩) := rfl

end Builder

end SchemaData.Module
