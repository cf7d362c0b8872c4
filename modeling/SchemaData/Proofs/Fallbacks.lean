import SchemaData.Proofs.Faults
import SchemaData.Proofs.Terminates
import SchemaData.Proofs.Watch

/-!
# SchemaData.Proofs.Fallbacks -- loops under overrides that fall back

An override that falls back to what its name stands for draws no payload of its own, so it
should not make an end of a chain that has none.  But a fallback draws the definition of a
name, and not the node that carries the name: where these differ, the draw leaves the chain
of the type.  So what is said elsewhere of the chain of a type is said here of the places of
a draw.  `Module.move?` goes from a node that has an entry to the definition of its name,
with that definition's own name passed over from there on, and from any other node on along
the chain.

Two conditions say what becomes of a draw.

* `Module.Unbroken`: it comes to no payload and to no undefined name.  For a type whose chain
  is endless this holds if the definitions of the names with an entry are endless too
  (`unbroken_of_endless`); `drawn_of_broken_loop` is a loop that an entry breaks.
* `Module.Apart`: no entry leads back to itself.  A single entry does not, if its definition
  carries its own name (`apart_of_own`).  A name is passed over only until the next entry, so
  entries that lead to one another are not apart.

`drawn_of_unbroken` says that under both conditions a draw fails with a loop and enters no
override twice: the names that may still be entered are the measure of the induction
(`Module.Roams`), and between two of them the count of references and the size of the node.
`unfinished_of_return` says that without the second condition it never finishes, whether the
entries return through one another (`unfinished_of_newtypes`) or one of them by way of an alias
(`unfinished_of_aliases`).
-/

namespace SchemaData

set_option autoImplicit false

/-- Where a draw is between two payloads: the name whose override is passed over, and the
node. -/
structure Place where
  skip : Option Name
  node : TypeExpr

/-- The name whose override is drawn at a place, if there are overrides for `names`. -/
def Place.covering? (names : List Name) (p : Place) : Option Name :=
  p.node.covering? names p.skip

namespace Module

/-- The next place of a draw under fallbacks. -/
def move? (m : Module) (names : List Name) (p : Place) : Option Place :=
  match p.covering? names with
  | some n => (m.get? n).map fun target => ⟨target.name?, target⟩
  | none => (m.next? p.node).map fun c => ⟨p.skip, c⟩

def Moves (m : Module) (names : List Name) (p q : Place) : Prop :=
  m.move? names p = some q

/-- A draw from a place comes to no payload and to no undefined name. -/
def Unbroken (m : Module) (names : List Name) (p : Place) : Prop :=
  ∀ q, Relation.ReflTransGen (m.Moves names) p q → m.move? names q ≠ none

/-- No entry to which a draw from a place comes leads back to itself. -/
def Apart (m : Module) (names : List Name) (p : Place) : Prop :=
  ∀ q r n, Relation.ReflTransGen (m.Moves names) p q → q.covering? names = some n →
    Relation.TransGen (m.Moves names) q r → r.covering? names ≠ some n

variable {m : Module} {names : List Name} {p q : Place}

theorem move?_of_entry {n : Name} (entry : p.covering? names = some n) :
    m.move? names p = (m.get? n).map fun target => ⟨target.name?, target⟩ := by
  rw [move?, entry]

theorem move?_of_plain (plain : p.covering? names = none) :
    m.move? names p = (m.next? p.node).map fun c => ⟨p.skip, c⟩ := by
  rw [move?, plain]

theorem moves_of_entry {n : Name} {target : TypeExpr} (entry : p.covering? names = some n)
    (found : m.get? n = some target) : m.Moves names p ⟨target.name?, target⟩ := by
  rw [Moves, move?_of_entry entry, found]
  rfl

theorem moves_of_plain {c : TypeExpr} (plain : p.covering? names = none)
    (next : m.next? p.node = some c) : m.Moves names p ⟨p.skip, c⟩ := by
  rw [Moves, move?_of_plain plain, next]
  rfl

/-- A place has one next place at most. -/
theorem moves_unique {r : Place} (moves : m.Moves names p q) (moves' : m.Moves names p r) :
    q = r :=
  Option.some.inj (moves.symm.trans moves')

/-- An endless chain stays so under fallbacks to definitions that are endless. -/
theorem unbroken_of_endless {skip : Option Name} {e : TypeExpr} (endless : m.Endless e)
    (definitions : ∀ n ∈ names, ∃ target, m.get? n = some target ∧ m.Endless target) :
    m.Unbroken names ⟨skip, e⟩ := by
  have behind : ∀ {p : Place}, m.Endless p.node → ∃ q, m.Moves names p q ∧ m.Endless q.node := by
    intro p endless
    cases entry : p.covering? names with
    | some n =>
        obtain ⟨target, found, further⟩ := definitions n (TypeExpr.covering?_eq_some.1 entry).2.2
        exact ⟨_, moves_of_entry entry found, further⟩
    | none =>
        obtain ⟨c, next⟩ := Option.ne_none_iff_exists'.1 (endless.next?_ne_none (i := 0) rfl)
        refine ⟨_, moves_of_plain entry next, endless.behind (i := 1) ?_⟩
        rw [chain, next]
        rfl
  intro q comes
  have goesOn : m.Endless q.node := by
    induction comes with
    | refl => exact endless
    | tail _ moves ih =>
        obtain ⟨q, moves', further⟩ := behind ih
        rwa [moves_unique moves moves']
  obtain ⟨r, moves, -⟩ := behind goesOn
  rw [moves]
  exact Option.some_ne_none r

/-- A single entry whose definition carries its own name does not lead back to itself. -/
theorem apart_of_own {n : Name} {target : TypeExpr} (found : m.get? n = some target)
    (own : target.name? = some n) (p : Place) : m.Apart [n] p := by
  intro q r n' _ entry further
  obtain rfl : n' = n := List.mem_singleton.1 (TypeExpr.covering?_eq_some.1 entry).2.2
  -- From the entry on, its name is passed over, and there is no other one to change that.
  have passed : ∀ {p : Place}, p.skip = some n' → p.covering? [n'] = none := by
    intro p skips
    cases covered : p.covering? [n'] with
    | none => rfl
    | some k =>
        obtain ⟨-, differs, member⟩ := TypeExpr.covering?_eq_some.1 covered
        rw [List.mem_singleton.1 member] at differs
        exact absurd skips differs
  have skips : r.skip = some n' := by
    induction further with
    | single moves =>
        rw [Moves, move?_of_entry entry, found] at moves
        cases moves
        exact own
    | tail _ moves ih =>
        rw [Moves, move?_of_plain (passed ih)] at moves
        obtain ⟨c, -, rfl⟩ := Option.map_eq_some_iff.1 moves
        exact ih
  rw [passed skips]
  exact nofun

/-- A draw from a place comes to no end and enters each of the names in `left` at most
once, and no others. -/
structure Roams (m : Module) (names left : List Name) (p : Place) : Prop where
  unbroken : m.Unbroken names p
  apart : m.Apart names p
  inside : ∀ q n, Relation.ReflTransGen (m.Moves names) p q → q.covering? names = some n →
    n ∈ left

variable {left : List Name}

theorem Roams.next (roams : m.Roams names left p) (moves : m.Moves names p q) :
    m.Roams names left q where
  unbroken r comes := roams.unbroken r (.head moves comes)
  apart r r' n comes := roams.apart r r' n (.head moves comes)
  inside r n comes := roams.inside r n (.head moves comes)

theorem Roams.exists_next {skip : Option Name} {e : TypeExpr}
    (roams : m.Roams names left ⟨skip, e⟩) (plain : (Place.mk skip e).covering? names = none) :
    ∃ c, m.next? e = some c ∧ m.Roams names left ⟨skip, c⟩ := by
  have here := roams.unbroken _ .refl
  rw [move?_of_plain plain] at here
  obtain ⟨c, next⟩ : ∃ c, m.next? e = some c :=
    Option.ne_none_iff_exists'.1 (mt Option.map_eq_none_iff.2 here)
  exact ⟨c, next, roams.next (moves_of_plain plain next)⟩

/-- Behind an entry, its name is not entered again. -/
theorem Roams.exists_entered {n : Name} (roams : m.Roams names left p)
    (entry : p.covering? names = some n) :
    ∃ target others, m.get? n = some target ∧ others.length < left.length ∧
      (∀ k ∈ others, k ∈ left ∧ k ≠ n) ∧ n ∈ left ∧
        m.Roams names others ⟨target.name?, target⟩ := by
  have here := roams.unbroken _ .refl
  rw [move?_of_entry entry] at here
  obtain ⟨target, found⟩ := Option.ne_none_iff_exists'.1 (mt Option.map_eq_none_iff.2 here)
  have moves := moves_of_entry entry found
  have member := roams.inside _ n .refl entry
  have others : ∀ {k}, k ∈ left.filter (· ≠ n) ↔ k ∈ left ∧ k ≠ n := by
    intro k
    rw [List.mem_filter, decide_eq_true_iff]
  refine ⟨target, left.filter (· ≠ n), found, ?_, fun k => others.1, member, ?_⟩
  · exact List.length_filter_lt_length_iff_exists.2 ⟨n, member, by simp⟩
  · have further := roams.next moves
    refine ⟨further.unbroken, further.apart, fun q k comes covered => ?_⟩
    refine others.2 ⟨further.inside q k comes covered, ?_⟩
    rintro rfl
    exact roams.apart _ q k .refl entry (.head' moves comes) covered

/-- Where an entry is to come, the chain leads to the first one. -/
theorem exists_along_entry {c : Place} {n : Name}
    (comes : Relation.ReflTransGen (m.Moves names) p c) (entry : c.covering? names = some n) :
    ∃ r e n', m.Along (fun e => e.covering? names p.skip = none) r p.node e ∧
      (Place.mk p.skip e).covering? names = some n' ∧
        Relation.ReflTransGen (m.Moves names) p ⟨p.skip, e⟩ := by
  induction comes using Relation.ReflTransGen.head_induction_on with
  | refl => exact ⟨0, c.node, n, .here, entry, .refl⟩
  | @head p q moves _ ih =>
      cases here : p.covering? names with
      | some n' => exact ⟨0, p.node, n', .here, here, .refl⟩
      | none =>
          obtain ⟨r, e, n', along, entry', comes'⟩ := ih
          have behind := moves
          rw [Moves, move?_of_plain here] at behind
          obtain ⟨d, next, rfl⟩ := Option.map_eq_some_iff.1 behind
          obtain ⟨skip, node⟩ := p
          cases node with
          | newtype k u =>
              cases next
              exact ⟨r, e, n', .unwrap here along, entry', .head moves comes'⟩
          | reference k => exact ⟨r + 1, e, n', .follow here next along, entry', .head moves comes'⟩
          | _ => cases next

/-- Once an entry leads back to itself, there is always one ahead. -/
theorem exists_entry_ahead (back : ¬ m.Apart names p)
    (comes : Relation.ReflTransGen (m.Moves names) p q) :
    ∃ c n, Relation.TransGen (m.Moves names) q c ∧ c.covering? names = some n := by
  simp only [Apart, not_forall, not_not] at back
  obtain ⟨c, d, n, first, entry, further, again⟩ := back
  obtain ⟨behind, moves, rest⟩ := Relation.TransGen.head'_iff.1 further
  -- Both places have the same next one, so the way between them is gone again and again.
  have back : m.Moves names d behind := by
    rwa [Moves, move?_of_entry again, ← move?_of_entry entry]
  have round : ∀ {r}, Relation.ReflTransGen (m.Moves names) c r →
      Relation.ReflTransGen (m.Moves names) r d := by
    intro r comes
    induction comes with
    | refl => exact further.to_reflTransGen
    | tail _ step ih =>
        rcases ih.cases_head with rfl | ⟨r, step', onward⟩
        · rwa [moves_unique step back]
        · rwa [moves_unique step step']
  have single : Relator.RightUnique (m.Moves names) := fun _ _ _ => moves_unique
  rcases Relation.ReflTransGen.total_of_right_unique single first comes with beyond | before
  · exact ⟨d, n, .trans_right (round beyond) (.head' back rest), again⟩
  · exact ⟨d, n, .trans_right before further, again⟩

end Module

/-! ## Draws under fallbacks -/

variable {σ : Type} [RandomSource σ]

/-- The table in which the names of a list fall back to what they stand for. -/
def fallbackTable (names : List Name) (home : Instance) : Overrides σ :=
  .ofNames names (Generator.fallback home)

/-- The same table with a record of the invocations. -/
def watchedFallbacks (names : List Name) (home : Instance) : Overrides (Watched σ) :=
  .ofNames names fun n => Generator.watched n (Generator.fallback home n)

section Runs

variable (σ) (home : Instance) (names : List Name)

/-- From a place, a draw fails at a chain without an end, with the reference to `x`.  It
takes no word, and on the way it has entered the overrides named, the last one first. -/
def LoopsFrom (hops : Nat) (p : Place) (x : Name) (entered : List Name) : Prop :=
  ∃ bound, ∀ fuel size (w : Watched σ), bound ≤ fuel →
    ∃ calls : List Call, calls.map Call.name = entered ∧
      drawValue (some (watchedFallbacks names home)) fuel hops p.skip ⟨home, p.node⟩ size w =
        .failed (.indirectionCycle x) ⟨w.source, w.running, calls ++ w.calls⟩

variable {σ home names} {hops : Nat} {skip : Option Name} {e : TypeExpr} {n x : Name}
  {entered : List Name}

omit [RandomSource σ] in
theorem overrideOf_fallbacks :
    overrideOf (some (watchedFallbacks (σ := σ) names home)) skip ⟨home, e⟩ =
      ((Place.mk skip e).covering? names).map fun n =>
        Generator.watched n (Generator.fallback home n) :=
  overrideOf_ofNames names _ skip ⟨home, e⟩

omit [RandomSource σ] in
theorem overrideOf_plain (plain : (Place.mk skip e).covering? names = none) :
    overrideOf (some (watchedFallbacks (σ := σ) names home)) skip ⟨home, e⟩ = none := by
  rw [overrideOf_fallbacks, plain]
  rfl

theorem loopsFrom_cycle {target : TypeExpr}
    (plain : (Place.mk skip (.reference n)).covering? names = none)
    (found : home.module.get? n = some target) (many : home.module.size < hops) :
    LoopsFrom σ home names hops ⟨skip, .reference n⟩ n [] := by
  refine ⟨1, fun fuel size w enough => ⟨[], rfl, ?_⟩⟩
  obtain ⟨fuel, rfl⟩ : ∃ k, fuel = k + 1 := ⟨fuel - 1, by omega⟩
  exact drawValue_cycle (overrideOf_plain plain) rfl found many w

/-- A step along the chain. -/
theorem loopsFrom_step {hops' : Nat} {c : TypeExpr} {f : Value → Value}
    (rest : LoopsFrom σ home names hops' ⟨skip, c⟩ x entered)
    (step : ∀ fuel size (w : Watched σ),
      drawValue (some (watchedFallbacks names home)) (fuel + 1) hops skip ⟨home, e⟩ size w =
        (drawValue (some (watchedFallbacks names home)) fuel hops' skip ⟨home, c⟩ size w).map f) :
    LoopsFrom σ home names hops ⟨skip, e⟩ x entered := by
  obtain ⟨bound, rest⟩ := rest
  refine ⟨bound + 1, fun fuel size w enough => ?_⟩
  obtain ⟨fuel, rfl⟩ : ∃ k, fuel = k + 1 := ⟨fuel - 1, by omega⟩
  obtain ⟨calls, recorded, drawn⟩ := rest fuel size w (by omega)
  refine ⟨calls, recorded, ?_⟩
  rw [step, drawn]
  rfl

theorem loopsFrom_newtype {u : TypeExpr}
    (plain : (Place.mk skip (.newtype n u)).covering? names = none)
    (rest : LoopsFrom σ home names hops ⟨skip, u⟩ x entered) :
    LoopsFrom σ home names hops ⟨skip, .newtype n u⟩ x entered :=
  loopsFrom_step rest fun _ _ w => drawValue_newtype (overrideOf_plain plain) rfl w

theorem loopsFrom_reference {target : TypeExpr}
    (plain : (Place.mk skip (.reference n)).covering? names = none)
    (found : home.module.get? n = some target) (few : hops ≤ home.module.size)
    (rest : LoopsFrom σ home names (hops + 1) ⟨skip, target⟩ x entered) :
    LoopsFrom σ home names hops ⟨skip, .reference n⟩ x entered :=
  loopsFrom_step rest fun _ _ w =>
    (drawValue_reference (overrideOf_plain plain) rfl found few w).trans (Outcome.map_id _).symm

/-- A step into an override. -/
theorem loopsFrom_entry {target : TypeExpr} (entry : (Place.mk skip e).covering? names = some n)
    (found : home.module.get? n = some target)
    (rest : LoopsFrom σ home names 0 ⟨target.name?, target⟩ x entered) :
    LoopsFrom σ home names hops ⟨skip, e⟩ x (entered ++ [n]) := by
  obtain ⟨bound, rest⟩ := rest
  refine ⟨bound + 1, fun fuel size w enough => ?_⟩
  obtain ⟨fuel, rfl⟩ : ∃ k, fuel = k + 1 := ⟨fuel - 1, by omega⟩
  obtain ⟨calls, recorded, drawn⟩ :=
    rest fuel (size - overrideCost) (w.enter n (size - overrideCost)) (by omega)
  refine ⟨calls ++ [⟨n, size - overrideCost, w.running + 1⟩], ?_, ?_⟩
  · rw [List.map_append, recorded]
    rfl
  · have covered : overrideOf (some (watchedFallbacks (σ := σ) names home)) skip ⟨home, e⟩ =
        some (Generator.watched n (Generator.fallback home n)) := by
      rw [overrideOf_fallbacks, entry]
      rfl
    rw [drawValue_override covered, Generator.watched, Generator.fallback_of_found found]
    change (drawValue _ fuel 0 target.name? ⟨home, target⟩ (size - overrideCost)
      (w.enter n (size - overrideCost))).mapSource Watched.leave = _
    rw [drawn, List.append_assoc]
    rfl

/-- **A draw that comes to no end fails**, if no entry leads back to itself. -/
theorem exists_loopsFrom (left : List Name) (hops : Nat) (skip : Option Name) (e : TypeExpr)
    (roams : home.module.Roams names left ⟨skip, e⟩) :
    ∃ x entered, entered.Nodup ∧ entered ⊆ left ∧
      LoopsFrom σ home names hops ⟨skip, e⟩ x entered := by
  cases entry : (Place.mk skip e).covering? names with
  | some n =>
      obtain ⟨target, others, found, fewer, others_subset, member, further⟩ :=
        roams.exists_entered entry
      obtain ⟨x, entered, distinct, members, rest⟩ :=
        exists_loopsFrom others 0 target.name? target further
      refine ⟨x, entered ++ [n], ?_, ?_, loopsFrom_entry entry found rest⟩
      · have new : n ∉ entered := fun again => (others_subset n (members again)).2 rfl
        exact List.nodup_append_comm.1 (List.nodup_cons.2 ⟨new, distinct⟩)
      · refine List.append_subset.2 ⟨fun k again => (others_subset k (members again)).1, ?_⟩
        exact List.cons_subset.2 ⟨member, List.nil_subset left⟩
  | none =>
      obtain ⟨c, next, further⟩ := roams.exists_next entry
      cases e with
      | newtype n u =>
          cases next
          obtain ⟨x, entered, distinct, members, rest⟩ :=
            exists_loopsFrom left hops skip c further
          exact ⟨x, entered, distinct, members, loopsFrom_newtype entry rest⟩
      | reference n =>
          rcases Nat.lt_or_ge home.module.size hops with many | few
          · exact ⟨n, [], List.nodup_nil, List.nil_subset _, loopsFrom_cycle entry next many⟩
          · obtain ⟨x, entered, distinct, members, rest⟩ :=
              exists_loopsFrom left (hops + 1) skip c further
            exact ⟨x, entered, distinct, members, loopsFrom_reference entry next few rest⟩
      | _ => cases next
termination_by (left.length, home.module.size + 1 - hops, sizeOf e)

/-- **A draw that comes to an entry which leads back to itself never finishes.**  There is
always another entry ahead, and the references before it are too few for a cycle to be
noticed. -/
theorem unfinished_of_return {start p : Place} (back : ¬ home.module.Apart names start)
    (comes : Relation.ReflTransGen (home.module.Moves names) start p) (fuel size : Nat) (s : σ) :
    drawValue (some (fallbackTable names home)) fuel 0 p.skip ⟨home, p.node⟩ size s =
      .unfinished := by
  obtain ⟨c, n, ahead, entry⟩ := Module.exists_entry_ahead back comes
  obtain ⟨r, e, n, along, entry, comes'⟩ := Module.exists_along_entry ahead.to_reflTransGen entry
  have stop : ¬ e.covering? names p.skip = none := fun plain => by
    rw [Place.covering?, plain] at entry
    cases entry
  have few : 0 + r ≤ home.module.size + 1 := by
    have := along.le_size stop
    omega
  have along' : home.module.Along (fun e => overrideOf (some (fallbackTable (σ := σ) names home))
      p.skip ⟨home, e⟩ = none) r p.node e :=
    along.imp fun e plain => by
      rw [fallbackTable, overrideOf_ofNames, plain]
      rfl
  obtain ⟨k, relabel, drawn⟩ := drawValue_along along' few
  rw [drawn]
  cases left : fuel - k with
  | zero => rfl
  | succ fuel' =>
      obtain ⟨_, -, further, -⟩ := Module.exists_entry_ahead back (comes.trans comes')
      obtain ⟨q, moves, -⟩ := Relation.TransGen.head'_iff.1 further
      have next := moves
      rw [Module.Moves, Module.move?_of_entry entry] at next
      obtain ⟨target, found, rfl⟩ := Option.map_eq_some_iff.1 next
      have covered : overrideOf (some (fallbackTable (σ := σ) names home)) p.skip ⟨home, e⟩ =
          some (Generator.fallback home n) := by
        rw [Place.covering?] at entry
        rw [fallbackTable, overrideOf_ofNames, entry]
        rfl
      rw [drawValue_override covered, Generator.fallback_of_found found]
      have again := unfinished_of_return back ((comes.trans comes').tail moves) fuel'
        (size - overrideCost) s
      change (drawValue _ fuel' 0 target.name? _ (size - overrideCost) s).map _ = .unfinished
      rw [again]
      rfl
termination_by fuel

end Runs

/-- Without overrides the draw of an endless chain fails with a loop, and takes no word. -/
theorem exists_plain_loop (t : BoundType) (endless : t.home.module.Endless t.expr) :
    ∃ x bound, ∀ (ctx : Context σ) (s : σ), bound ≤ ctx.fuel →
      (ValueGenerator.plain t).generator ctx s = .failed (.indirectionCycle x) s := by
  obtain ⟨x, looping⟩ := Module.exists_looping_iff.2 endless
  have plain : ∀ c, overrideOf (some (∅ : Overrides σ)) none ⟨t.home, c⟩ = none :=
    fun c => overrideOf_empty none _
  have fault : (t.home.module.head t.expr).fault? = some (.indirectionCycle x) := by
    rw [looping]
    rfl
  obtain ⟨bound, fails⟩ := exists_drawn_fault (fun _ c _ => plain c) fault
  exact ⟨x, bound, fun ctx s enough => fails ctx.fuel ctx.size s enough⟩

/-- **Fallbacks make no end of a loop.**  Let the chain of a type be endless, and let names
have overrides that fall back to what they stand for.  If a draw comes to no payload and to
no undefined name by way of them, and if none of them leads back to itself, then it fails
with a loop, as it does without overrides, and takes no word.  It enters no override twice
on the way. -/
theorem drawn_of_unbroken (t : BoundType) (names : List Name)
    (endless : t.home.module.Endless t.expr)
    (unbroken : t.home.module.Unbroken names ⟨none, t.expr⟩)
    (apart : t.home.module.Apart names ⟨none, t.expr⟩) :
    (∃ x bound,
      (∀ (ctx : Context σ) (s : σ), bound ≤ ctx.fuel →
        (ValueGenerator.mk (fallbackTable names t.home) t).generator ctx s =
          .failed (.indirectionCycle x) s) ∧
      ∀ (ctx : Context (Watched σ)) (s : σ), bound ≤ ctx.fuel → ∃ calls : List Call,
        (calls.map Call.name).Nodup ∧
          (ValueGenerator.mk (watchedFallbacks names t.home) t).generator ctx (.start s) =
            .failed (.indirectionCycle x) ⟨s, 0, calls⟩) ∧
    ∃ x bound, ∀ (ctx : Context σ) (s : σ), bound ≤ ctx.fuel →
      (ValueGenerator.plain t).generator ctx s = .failed (.indirectionCycle x) s := by
  constructor
  · have roams : t.home.module.Roams names names ⟨none, t.expr⟩ :=
      ⟨unbroken, apart, fun _ _ _ entry => (TypeExpr.covering?_eq_some.1 entry).2.2⟩
    obtain ⟨x, entered, distinct, -, bound, drawn⟩ :=
      exists_loopsFrom (σ := σ) names 0 none t.expr roams
    have same : (watchedFallbacks names t.home).Commute Watched.source
        (fallbackTable (σ := σ) names t.home) :=
      Overrides.commute_ofNames
        (fun n => Generator.commutes_watched (Generator.commutes_fallback t.home n) n) names
    refine ⟨x, bound, fun ctx s enough => ?_, fun ctx s enough => ?_⟩
    · obtain ⟨calls, -, fails⟩ := drawn ctx.fuel ctx.size (.start s) enough
      have mapped := drawValue_map Watched.sourceMap same ctx.fuel 0 none t ctx.size (.start s)
      rw [fails] at mapped
      exact mapped
    · obtain ⟨calls, recorded, fails⟩ := drawn ctx.fuel ctx.size (.start s) enough
      refine ⟨calls, recorded ▸ distinct, ?_⟩
      change _ = Outcome.failed _ (Watched.mk s 0 (calls ++ [])) at fails
      rw [List.append_nil] at fails
      exact fails
  · exact exists_plain_loop t endless

namespace Example

def ping : Name := ⟨"t", "Ping", by decide⟩

def pong : Name := ⟨"t", "Pong", by decide⟩

/-- Two newtypes that stand for each other. -/
def newtypes : Module :=
  ⟨.ofList [(ping, .newtype ping (.reference pong)), (pong, .newtype pong (.reference ping))]⟩

/-- A loop through a newtype that carries the name of a number. -/
def shadowed : Module :=
  ⟨.ofList [(ping, .newtype pong (.reference ping)), (pong, .primitive .int32)]⟩

/-- Two references that stand for each other. -/
def aliases : Module :=
  ⟨.ofList [(ping, .reference pong), (pong, .reference ping)]⟩

end Example

open Example in
/-- One of two newtypes on a loop has an entry. -/
theorem drawn_of_unbroken_newtypes :
    newtypes.Endless (.reference pong) ∧ newtypes.Unbroken [ping] ⟨none, .reference pong⟩ ∧
      newtypes.Apart [ping] ⟨none, .reference pong⟩ ∧
        ∃ x bound, ∀ (ctx : Context Padded) (s : Padded), bound ≤ ctx.fuel →
          (ValueGenerator.mk (fallbackTable [ping] ⟨1, newtypes⟩)
            ⟨⟨1, newtypes⟩, .reference pong⟩).generator ctx s =
              .failed (.indirectionCycle x) s := by
  have endless : newtypes.Endless (.reference pong) :=
    Module.exists_looping_iff.1 ⟨ping, rfl⟩
  have definition : newtypes.Endless (.newtype ping (.reference pong)) :=
    Module.exists_looping_iff.1 ⟨ping, rfl⟩
  have unbroken : newtypes.Unbroken [ping] ⟨none, .reference pong⟩ := by
    refine Module.unbroken_of_endless endless fun n member => ?_
    rw [List.mem_singleton.1 member]
    exact ⟨_, rfl, definition⟩
  have apart : newtypes.Apart [ping] ⟨none, .reference pong⟩ := Module.apart_of_own rfl rfl _
  obtain ⟨⟨x, bound, fails, -⟩, -⟩ :=
    drawn_of_unbroken (σ := Padded) ⟨⟨1, newtypes⟩, .reference pong⟩ [ping] endless unbroken apart
  exact ⟨endless, unbroken, apart, x, bound, fails⟩

open Example in
/-- The entry of a number's name, which a newtype on a loop carries, breaks the loop: the
chain is endless, and a draw ends with a value. -/
theorem drawn_of_broken_loop :
    shadowed.Endless (.reference ping) ∧ (∀ n ∈ [pong], shadowed.contains n = true) ∧
      ∀ ctx : Context Padded, 3 ≤ ctx.fuel → ∃ v s,
        (ValueGenerator.mk (fallbackTable [pong] ⟨1, shadowed⟩)
          ⟨⟨1, shadowed⟩, .reference ping⟩).generator ctx ⟨[]⟩ = .value v s := by
  refine ⟨Module.exists_looping_iff.1 ⟨ping, rfl⟩, by decide, fun ctx enough => ?_⟩
  obtain ⟨k, fuel⟩ : ∃ k, ctx.fuel = k + 3 := ⟨ctx.fuel - 3, by omega⟩
  change ∃ v s, drawValue _ ctx.fuel 0 none _ ctx.size _ = .value v s
  rw [fuel]
  exact ⟨_, _, rfl⟩

open Example in
/-- Both of two newtypes on a loop have an entry, and each of them leads to the other.  So the
draw never finishes, while without overrides it fails with a loop. -/
theorem unfinished_of_newtypes :
    newtypes.checkWellFormed = .ok () ∧ (∀ n ∈ [ping, pong], newtypes.contains n = true) ∧
      newtypes.Endless (.reference ping) ∧
      (∀ (ctx : Context Padded) (s : Padded),
        (ValueGenerator.mk (fallbackTable [ping, pong] ⟨1, newtypes⟩)
          ⟨⟨1, newtypes⟩, .reference ping⟩).generator ctx s = .unfinished) ∧
      ∃ x bound, ∀ (ctx : Context Padded) (s : Padded), bound ≤ ctx.fuel →
        (ValueGenerator.plain ⟨⟨1, newtypes⟩, .reference ping⟩).generator ctx s =
          .failed (.indirectionCycle x) s := by
  have endless : newtypes.Endless (.reference ping) := Module.exists_looping_iff.1 ⟨pong, rfl⟩
  have back : ¬ (Instance.mk 1 newtypes).module.Apart [ping, pong] ⟨none, .reference ping⟩ := by
    intro apart
    have enter : newtypes.Moves [ping, pong] ⟨none, .reference ping⟩
        ⟨some ping, .newtype ping (.reference pong)⟩ := rfl
    have unwrap : newtypes.Moves [ping, pong] ⟨some ping, .newtype ping (.reference pong)⟩
        ⟨some ping, .reference pong⟩ := rfl
    have enter' : newtypes.Moves [ping, pong] ⟨some ping, .reference pong⟩
        ⟨some pong, .newtype pong (.reference ping)⟩ := rfl
    have unwrap' : newtypes.Moves [ping, pong] ⟨some pong, .newtype pong (.reference ping)⟩
        ⟨some pong, .reference ping⟩ := rfl
    have returns : Relation.TransGen (newtypes.Moves [ping, pong]) ⟨none, .reference ping⟩
        ⟨some pong, .reference ping⟩ := .head enter (.head unwrap (.head enter' (.single unwrap')))
    exact apart _ _ ping .refl rfl returns rfl
  exact ⟨by cbv, by decide, endless,
    fun ctx s => unfinished_of_return back .refl ctx.fuel ctx.size s,
    exists_plain_loop ⟨⟨1, newtypes⟩, .reference ping⟩ endless⟩

open Example in
/-- The definition of `ping` carries the name of `pong`, so the entry of `ping` passes over
that one and comes to itself again. -/
theorem unfinished_of_aliases (fuel size : Nat) (s : Padded) :
    drawValue (some (fallbackTable [ping] ⟨1, aliases⟩)) fuel 0 none
      ⟨⟨1, aliases⟩, .reference ping⟩ size s = .unfinished := by
  have back : ¬ (Instance.mk 1 aliases).module.Apart [ping] ⟨none, .reference ping⟩ := by
    intro apart
    have onward : aliases.Moves [ping] ⟨none, .reference ping⟩ ⟨some pong, .reference pong⟩ := rfl
    have again : aliases.Moves [ping] ⟨some pong, .reference pong⟩
        ⟨some pong, .reference ping⟩ := rfl
    exact apart _ _ ping .refl rfl (.head onward (.single again)) rfl
  exact unfinished_of_return back .refl fuel size s

end SchemaData
