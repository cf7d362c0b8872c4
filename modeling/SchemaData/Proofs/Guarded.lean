import SchemaData.Proofs.Terminates
import SchemaData.Proofs.Watch

/-!
# SchemaData.Proofs.Guarded -- overrides with a guard end every recursion

A recursive schema is drawn under overrides for some of its names, one on every cycle of
references at least.  Each of them gives a fixed value when the budget is down to a limit,
and falls back to what its name stands for above (`Generator.guarded`).  Every such draw
ends.  The measure has four parts:

* The budget.  It is the same everywhere below a node but in an override, where it is
  smaller (`ends_within`).
* Between two overrides, a descent from node to node ends, because it cannot go on from the
  names of the cut (`ends_uncovered`, by `Module.leadsApart_wellFounded`).
* An override falls back to its definition with its own name passed over, and until a
  payload is drawn the chain may go round through that name.  There the count of references
  bounds the draw, and between two references the size of the node (`ends_passing`).

The record of a watched draw is the invariant of the induction: `Watched.Within` says how
many invocations are running and that every call had the budget of its depth.  So
`drawn_of_cut` says of a draw that it ends, with which budgets the overrides are called in
it, and how deep they are nested.
-/

namespace SchemaData

set_option autoImplicit false

variable {σ : Type} [RandomSource σ]

/-- The budget of a call is what its depth leaves of the first budget, and the depth is
what the limit admits. -/
def Call.Within (limit size : Nat) (call : Call) : Prop :=
  call.budget = size - 10 * call.depth ∧ call.depth ≤ max 1 ((size - limit + 9) / 10)

namespace Watched

/-- With `depth` invocations running, loops end and all calls were as they should be. -/
structure Within (limit size depth : Nat) (w : Watched σ) : Prop where
  loops : RandomSource.LoopsEnd w.source
  running : w.running = depth
  calls : ∀ call ∈ w.calls, call.Within limit size

variable {limit size depth : Nat}

theorem steady_within : RandomSource.Steady (Within limit size depth : Watched σ → Prop) where
  loops w holds := loopsEndHere (RandomSource.steady_loopsEnd.loops _ holds.loops)
  next w w' holds next := by
    obtain ⟨source, running, calls⟩ := follows next
    refine ⟨RandomSource.steady_loopsEnd.next _ _ holds.loops source, ?_, ?_⟩
    · rw [running, holds.running]
    · rw [calls]
      exact holds.calls

/-- Another invocation may begin if none is running or the budget is above the limit. -/
theorem Within.enter {w : Watched σ} (holds : w.Within limit size depth) (n : Name)
    (room : depth = 0 ∨ limit < size - overrideCost * depth) :
    (w.enter n (size - overrideCost * (depth + 1))).Within limit size (depth + 1) := by
  have fits : depth + 1 ≤ max 1 ((size - limit + 9) / 10) := by
    simp only [overrideCost] at room
    omega
  refine ⟨holds.loops, congrArg (· + 1) holds.running, ?_⟩
  refine List.forall_mem_cons.2 ⟨⟨?_, ?_⟩, holds.calls⟩
  · show _ = size - overrideCost * (w.running + 1)
    rw [holds.running]
  · show w.running + 1 ≤ _
    rw [holds.running]
    exact fits

theorem Within.leave {w : Watched σ} (holds : w.Within limit size (depth + 1)) :
    w.leave.Within limit size depth :=
  ⟨holds.loops, congrArg (· - 1) holds.running, holds.calls⟩

end Watched

/-- The table of guarded overrides of a list of names. -/
def guardedTable (names : List Name) (limit : Nat) (home : Instance) (base : Name → Value) :
    Overrides σ :=
  .ofNames names (Generator.guarded limit home base)

/-- The same table with a record of the invocations. -/
def watchedTable (names : List Name) (limit : Nat) (home : Instance) (base : Name → Value) :
    Overrides (Watched σ) :=
  .ofNames names fun n => Generator.watched n (Generator.guarded limit home base n)

/-- The failure of a chain that goes on for ever. -/
def IsCycle (e : DrawError) : Prop := ∃ n, e = .indirectionCycle n

namespace Generator

/-! ## Draws with one budget -/

section Level

variable {home : Instance} {names : List Name} {entry : Name → Generator σ Value}
  {I : σ → Prop} {size : Nat}
  (steady : RandomSource.Steady I) (cut : home.module.CutBy names)
  (entries : ∀ n ∈ names, (entry n).Ends (some (Overrides.ofNames names entry)) I
    (size - overrideCost) (fun _ => True) IsCycle)

include steady entries

omit steady in
theorem ends_entry {g : Generator σ Value} {skip : Option Name} {t : BoundType}
    (found : overrideOf (some (Overrides.ofNames names entry)) skip t = some g) :
    g.Ends (some (Overrides.ofNames names entry)) I (size - overrideCost) (fun _ => True)
      IsCycle := by
  rw [overrideOf_ofNames, Option.map_eq_some_iff] at found
  obtain ⟨n, covered, rfl⟩ := found
  exact entries n (TypeExpr.covering?_eq_some.1 covered).2.2

include cut

/-- As long as no name is passed over, a draw of a node ends by the descent from node to
node that stops at the names of the overrides. -/
theorem ends_uncovered (e : TypeExpr) (admits : home.module.Throughout home.module.Admits e)
    (hops : Nat) :
    (walk (some (Overrides.ofNames names entry)) hops none ⟨home, e⟩).Ends
      (some (Overrides.ofNames names entry)) I size (fun _ => True) IsCycle := by
  induction e using (Module.leadsApart_wellFounded cut).induction generalizing hops with
  | h e ih =>
      refine ends_walk_node steady admits.here.1 admits.here.2 (fun n => ⟨n, rfl⟩)
        (fun g found => ends_entry entries found) ?_ ?_ ?_
      · intro _ c child
        exact ih c (.child child) (admits.next (.child child)) 0
      · rintro _ n u rfl
        have child : u ∈ (TypeExpr.newtype n u).children := List.mem_cons_self
        exact ih u (.child child) (admits.next (.child child)) hops
      · rintro plain n target rfl found _
        have outside : n ∉ names := by
          intro member
          have covered : (TypeExpr.reference n).covering? names none = some n :=
            TypeExpr.covering?_eq_some.2 ⟨rfl, nofun, member⟩
          rw [overrideOf_ofNames, covered] at plain
          cases plain
        exact ih target (.definition outside found) (admits.next (.definition found)) (hops + 1)

/-- With a name passed over, the count of references bounds the chain of a node; behind it
no name is passed over. -/
theorem ends_passing (skip : Option Name) (e : TypeExpr)
    (admits : home.module.Throughout home.module.Admits e) (hops : Nat) :
    (walk (some (Overrides.ofNames names entry)) hops skip ⟨home, e⟩).Ends
      (some (Overrides.ofNames names entry)) I size (fun _ => True) IsCycle := by
  refine ends_walk_node steady admits.here.1 admits.here.2 (fun n => ⟨n, rfl⟩)
    (fun g found => ends_entry entries found) ?_ ?_ ?_
  · intro _ c child
    exact ends_uncovered steady cut entries c (admits.next (.child child)) 0
  · rintro _ n u rfl
    exact ends_passing skip u (admits.next (.child List.mem_cons_self)) hops
  · rintro _ n target rfl found few
    exact ends_passing skip target (admits.next (.definition found)) (hops + 1)
termination_by (home.module.size + 1 - hops, sizeOf e)

end Level

/-! ## Draws within a budget -/

variable {home : Instance}

/-- **Every draw under guarded overrides ends**, if the names cut all cycles.  Each level
of the induction is one invocation deeper and has a smaller budget. -/
theorem ends_within {names : List Name} (limit size : Nat) (base : Name → Value)
    (wellFormed : home.module.checkWellFormed = .ok ())
    (defined : ∀ n ∈ names, home.module.contains n = true) (cut : home.module.CutBy names)
    {depth : Nat} (room : depth = 0 ∨ limit < size - overrideCost * depth)
    (skip : Option Name) (e : TypeExpr)
    (admits : home.module.Throughout home.module.Admits e) (hops : Nat) :
    (walk (some (watchedTable names limit home base)) hops skip ⟨home, e⟩ :
        Generator (Watched σ) Value).Ends (some (watchedTable names limit home base))
      (Watched.Within limit size depth) (size - overrideCost * depth) (fun _ => True)
      IsCycle := by
  refine ends_passing Watched.steady_within cut (fun n member => ?_) skip e admits hops
  obtain ⟨target, found⟩ := (home.module.contains_iff n).1 (defined n member)
  have less : size - overrideCost * depth - overrideCost = size - overrideCost * (depth + 1) := by
    rw [Nat.sub_sub, Nat.mul_succ]
  rw [less]
  refine ends_watched ?_ (fun w holds => holds.enter n room) fun w holds => holds.leave
  change (if size - overrideCost * (depth + 1) ≤ limit then pure (base n)
    else fallback home n : Generator (Watched σ) Value).Ends _ _ _ _ _
  by_cases low : size - overrideCost * (depth + 1) ≤ limit
  · rw [if_pos low]
    exact ends_pure trivial
  · rw [if_neg low, fallback_of_found found]
    have above : limit < size - overrideCost * (depth + 1) := Nat.lt_of_not_le low
    exact ends_within limit size base wellFormed defined cut (.inr above) target.name? target
      (Module.throughout_admits_of_get? wellFormed found) 0
termination_by size - overrideCost * depth
decreasing_by
  rw [← less]
  have positive : 0 < overrideCost := by decide
  omega

end Generator

/-- **Guarded overrides on all cycles end every recursion.**  In a well-formed module, let
each cycle of references go through one of the names, and let each name have an override
that gives a fixed value when the budget is down to a limit and falls back above.  Then a
draw of a type that passes its own checks ends with a value or at a chain without an end,
whatever the budget, from every source whose loops end.

A record of the invocations shows that an override at depth `d`, which is called while
`d - 1` others are running, has the first budget less `10 * d`, and that the depth is no
more than the number of steps of 10 between the first budget and the limit, or than 1.  The
record changes nothing in the draw. -/
theorem drawn_of_cut (t : BoundType) (names : List Name) (limit size : Nat)
    (base : Name → Value) (s : σ)
    (wellFormed : t.home.module.checkWellFormed = .ok ())
    (defined : ∀ n ∈ names, t.home.module.contains n = true)
    (cut : t.home.module.CutBy names)
    (sound : t.expr.checkStructure = .ok ())
    (closed : ∀ n ∈ t.expr.references, t.home.module.contains n = true)
    (loops : RandomSource.LoopsEnd s) :
    ∃ (o : Outcome (Watched σ) Value) (bound : Nat),
      o.Ended (fun w => ∀ call ∈ w.calls, call.Within limit size) (fun _ => True) IsCycle ∧
        (∀ ctx : Context (Watched σ), ctx.size = size → bound ≤ ctx.fuel →
          (ValueGenerator.mk (watchedTable names limit t.home base) t).generator ctx (.start s) =
            o) ∧
        ∀ ctx : Context σ, ctx.size = size → bound ≤ ctx.fuel →
          (ValueGenerator.mk (guardedTable names limit t.home base) t).generator ctx s =
            o.mapSource Watched.source := by
  have admits := Module.throughout_admits wellFormed sound closed
  have before : (Watched.start s).Within limit size 0 := ⟨loops, rfl, nofun⟩
  obtain ⟨o, ended, bound, draws⟩ := Generator.ends_within limit size base wellFormed defined cut
    (.inl rfl) none t.expr admits 0 (.start s) before
  have watched : ∀ fuel, bound ≤ fuel → drawValue (some (watchedTable names limit t.home base))
      fuel 0 none t size (.start s) = o := draws
  have same : (watchedTable names limit t.home base).Commute Watched.source
      (guardedTable (σ := σ) names limit t.home base) :=
    Overrides.commute_ofNames
      (fun n => Generator.commutes_watched (Generator.commutes_guarded limit t.home base n) n) names
  refine ⟨o, bound, ?_, ?_, ?_⟩
  · cases o with
    | value v w => exact ⟨trivial, ended.2.calls⟩
    | failed e w => exact ⟨ended.1, ended.2.calls⟩
    | unfinished => exact ended
  · rintro ctx rfl enough
    exact watched ctx.fuel enough
  · rintro ctx rfl enough
    have mapped := drawValue_map Watched.sourceMap same ctx.fuel 0 none t ctx.size (.start s)
    rw [watched ctx.fuel enough] at mapped
    exact mapped

namespace Example

def node : Name := ⟨"t", "Node", by decide⟩

def nodes : Name := ⟨"t", "Nodes", by decide⟩

/-- Trees whose nodes hold a list of trees: the two definitions refer to each other. -/
def forest : BoundType :=
  ⟨⟨1, ⟨.ofList [
      (node, .record node [⟨"label", .primitive .int32⟩, ⟨"below", .reference nodes⟩]),
      (nodes, .newtype nodes (.array (.reference node)))]⟩⟩,
    .optional (.reference nodes)⟩

/-- A list of trees. -/
def grove (trees : List Value) : Value :=
  ⟨⟨forest.home, .newtype nodes (.array (.reference node))⟩, .array trees⟩

/-- A tree with the trees below it. -/
def treeWith (label : Int32) (below : List Value) : Value :=
  ⟨⟨forest.home, .record node [⟨"label", .primitive .int32⟩, ⟨"below", .reference nodes⟩]⟩,
    .record [⟨⟨forest.home, .primitive .int32⟩, .scalar (.int32 label)⟩, grove below]⟩

/-- A tree without trees below it. -/
def leaf : Value := treeWith 0 []

/-- Words for a list of one tree: that there is a list, its length, and then each label with the
length of the list below it.  For the last label this is a zero behind the words. -/
def branching : Padded :=
  ⟨[0x80000000, 0x0700000000000000, 7, 0x1200000000000000, 8, 0x1000000000000000, 9,
    0x2000000000000000, 10]⟩

/-- The list that these words give.  The tree on the fourth level is the fixed value. -/
def branched : Value :=
  ⟨forest, .optional (some (grove
    [treeWith 7 [treeWith 8 [treeWith 9 [leaf]], treeWith 10 []]]))⟩

end Example

open Example in
/-- One override cuts the recursion of trees.  In this draw the invocations are four deep, as
deep as the limit admits, and the deepest one has nothing left of the budget. -/
theorem drawn_of_cut_forest :
    ∃ (o : Outcome (Watched Padded) Value) (bound : Nat),
      o.Ended (fun w => ∀ call ∈ w.calls, call.Within 5 40) (fun _ => True) IsCycle ∧
        (∀ ctx : Context (Watched Padded), ctx.size = 40 → bound ≤ ctx.fuel →
          (ValueGenerator.mk (watchedTable [node] 5 forest.home fun _ => leaf)
            forest).generator ctx (.start branching) = o) ∧
        (∀ ctx : Context Padded, ctx.size = 40 → bound ≤ ctx.fuel →
          (ValueGenerator.mk (guardedTable [node] 5 forest.home fun _ => leaf)
            forest).generator ctx branching = o.mapSource Watched.source) ∧
        o = .value branched ⟨⟨[]⟩, 0,
          [⟨node, 20, 2⟩, ⟨node, 0, 4⟩, ⟨node, 10, 3⟩, ⟨node, 20, 2⟩, ⟨node, 30, 1⟩]⟩ := by
  obtain ⟨o, bound, ended, watched, drawn⟩ :=
    drawn_of_cut forest [node] 5 40 (fun _ => leaf) branching (by cbv) (by decide)
      (Module.cutBy_of_successors (by decide)) (by cbv) (by decide) (Padded.loopsEnd _)
  refine ⟨o, bound, ended, watched, drawn, ?_⟩
  -- the draw is computed with one amount of fuel, and is the same from there on
  have computed : (ValueGenerator.mk (watchedTable [node] 5 forest.home fun _ => leaf)
      forest).generator (Context.start 20 40 none) (.start branching) = .value branched ⟨⟨[]⟩, 0,
        [⟨node, 20, 2⟩, ⟨node, 0, 4⟩, ⟨node, 10, 3⟩, ⟨node, 20, 2⟩, ⟨node, 30, 1⟩]⟩ := by rfl
  have last : (watchedTable (σ := Padded) [node] 5 forest.home fun _ => leaf).Last :=
    Overrides.last_ofNames (fun n => Generator.lasts_watched (Generator.lasts_guarded 5 _ _ n) n) _
  rw [← watched (Context.start (max bound 20) 40 none) rfl (Nat.le_max_left bound 20)]
  exact drawn_of_le last computed _ rfl (Nat.le_max_right bound 20)

end SchemaData
