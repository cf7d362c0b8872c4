import SchemaData.Proofs.Ends
import SchemaData.Proofs.Fuel
import SchemaData.Proofs.SourceMap

/-!
# SchemaData.Proofs.Watch -- overrides that keep a record

What an override is called with cannot be seen in the value that is drawn.  So it is
written down: a `Watched` source holds, beside the source that gives its words, how many
invocations of overrides are running and a record of all of them, and `watched n g` is the
override `g` with its invocations recorded.

* `commutes_watched`: a record changes nothing.  Seen without it, the draws of `watched n g`
  are those of `g`, and so are all draws under a table of watched overrides
  (`Generator.Commutes`, `drawValue_map`).
* `lasts_watched`: nor does it keep a draw from being the same with more fuel.
* `ends_watched`: an invocation begins by entering itself in the record and ends by leaving,
  whether it succeeds or not; this is the rule for invariants that mention the record.

The overrides of interest here are made for each name of a list (`Overrides.ofNames`), and
draw what they stand for one level down (`Generator.fallback`), as long as the budget is
above a limit (`Generator.guarded`) or always.
-/

namespace SchemaData

set_option autoImplicit false

variable {τ σ α : Type}

/-! ## Tables made for a list of names -/

/-- A table of a function on a list of names has its values there and no others. -/
theorem NameMap.get?_ofList_graph {ν : Type} (names : List Name) (f : Name → ν) (n : Name) :
    (NameMap.ofList (names.map fun n => (n, f n))).get? n =
      if n ∈ names then some (f n) else none := by
  have grows : ∀ m : NameMap ν,
      ((names.map fun n => (n, f n)).foldl (fun m e => m.insert e.1 e.2) m).get? n =
        if n ∈ names then some (f n) else m.get? n := by
    induction names with
    | nil => intro m; rfl
    | cons n' rest ih =>
        intro m
        rw [List.map_cons, List.foldl_cons, ih, NameMap.get?_insert]
        by_cases same : n = n'
        · subst same
          simp
        · simp [same]
  exact grows ∅

/-- The table of an override for each name of a list. -/
def Overrides.ofNames (names : List Name) (entry : Name → Generator σ Value) : Overrides σ :=
  NameMap.ofList (names.map fun n => (n, entry n))

theorem Overrides.get?_ofNames (names : List Name) (entry : Name → Generator σ Value)
    (n : Name) : (ofNames names entry).get? n = if n ∈ names then some (entry n) else none :=
  NameMap.get?_ofList_graph names entry n

/-- The tables of overrides that commute do. -/
theorem Overrides.commute_ofNames {π : τ → σ} {entry : Name → Generator τ Value}
    {entry' : Name → Generator σ Value} (each : ∀ n, Generator.Commutes π (entry n) (entry' n))
    (names : List Name) : (ofNames names entry).Commute π (ofNames names entry') := by
  intro n
  rw [get?_ofNames, get?_ofNames]
  by_cases member : n ∈ names
  · rw [if_pos member, if_pos member]
    exact .inr ⟨_, _, rfl, rfl, each n⟩
  · rw [if_neg member, if_neg member]
    exact .inl ⟨rfl, rfl⟩

theorem Overrides.last_ofNames {entry : Name → Generator σ Value} (each : ∀ n, (entry n).Lasts)
    (names : List Name) : (ofNames names entry).Last := by
  intro n g found
  rw [get?_ofNames] at found
  split at found
  · exact Option.some.inj found ▸ each n
  · cases found

/-- The name whose entry is drawn in the place of a node, if there are entries for
`names` and the one of `skip` is passed over. -/
def TypeExpr.covering? (names : List Name) (skip : Option Name) (e : TypeExpr) : Option Name :=
  e.name?.filter fun n => skip ≠ some n ∧ n ∈ names

theorem TypeExpr.covering?_eq_some {names : List Name} {skip : Option Name} {e : TypeExpr}
    {n : Name} :
    e.covering? names skip = some n ↔ e.name? = some n ∧ skip ≠ some n ∧ n ∈ names := by
  rw [covering?, Option.filter_eq_some_iff, decide_eq_true_iff]

theorem overrideOf_ofNames (names : List Name) (entry : Name → Generator σ Value)
    (skip : Option Name) (t : BoundType) :
    overrideOf (some (Overrides.ofNames names entry)) skip t =
      (t.expr.covering? names skip).map entry := by
  rw [overrideOf, TypeExpr.covering?]
  cases named : t.name? with
  | none =>
      rw [BoundType.name?] at named
      rw [named]
      rfl
  | some n =>
      rw [BoundType.name?] at named
      rw [named, Option.filter]
      by_cases passed : skip = some n
      · simp [bind, passed]
      · by_cases member : n ∈ names <;>
          simp [bind, passed, member, Overrides.get?_ofNames]

/-! ## Overrides that fall back -/

namespace Generator

/-- What a name stands for, drawn without the override of the outermost name. -/
def fallback (home : Instance) (n : Name) : Generator σ Value :=
  match BoundType.lookup home n with
  | .ok t => structural t
  | .error e => fail (.schema e)

/-- A fixed value when the budget is down to `limit`, and the fallback above. -/
def guarded (limit : Nat) (home : Instance) (base : Name → Value) (n : Name) :
    Generator σ Value :=
  sized fun size => if size ≤ limit then pure (base n) else fallback home n

theorem fallback_of_found {home : Instance} {n : Name} {target : TypeExpr}
    (found : home.module.get? n = some target) :
    (fallback home n : Generator σ Value) = structural ⟨home, target⟩ := by
  rw [fallback, BoundType.lookup, Module.lookup, found]
  rfl

theorem commutes_fallback {π : τ → σ} (home : Instance) (n : Name) :
    Commutes π (fallback home n : Generator τ Value) (fallback home n) := by
  unfold fallback
  split
  · exact commutes_structural _
  · exact commutes_fail _

theorem commutes_guarded {π : τ → σ} (limit : Nat) (home : Instance) (base : Name → Value)
    (n : Name) :
    Commutes π (guarded limit home base n : Generator τ Value) (guarded limit home base n) := by
  refine commutes_sized fun size => ?_
  split
  · exact commutes_pure _
  · exact commutes_fallback home n

theorem lasts_fallback (home : Instance) (n : Name) :
    (fallback home n : Generator σ Value).Lasts := by
  unfold fallback
  split
  · exact lasts_structural _
  · exact lasts_fail _

theorem lasts_guarded (limit : Nat) (home : Instance) (base : Name → Value) (n : Name) :
    (guarded limit home base n : Generator σ Value).Lasts := by
  refine lasts_sized fun size => ?_
  split
  · exact lasts_pure _
  · exact lasts_fallback home n

end Generator

/-! ## The record -/

/-- An invocation of an override: its name, its budget, and how many invocations were
running then, itself included. -/
structure Call where
  name : Name
  budget : Nat
  depth : Nat

/-- A source with a record of the invocations of overrides, the last one first. -/
structure Watched (σ : Type) where
  source : σ
  running : Nat
  calls : List Call

namespace Watched

/-- The source before any invocation. -/
def start (s : σ) : Watched σ := ⟨s, 0, []⟩

/-- An invocation begins. -/
def enter (w : Watched σ) (n : Name) (budget : Nat) : Watched σ :=
  ⟨w.source, w.running + 1, ⟨n, budget, w.running + 1⟩ :: w.calls⟩

/-- The invocation that began last ends. -/
def leave (w : Watched σ) : Watched σ := ⟨w.source, w.running - 1, w.calls⟩

/-- Takes from the source and keeps the record. -/
def take {ω : Type} (next : σ → ω × σ) (w : Watched σ) : ω × Watched σ :=
  ((next w.source).1, ⟨(next w.source).2, w.running, w.calls⟩)

instance [RandomSource σ] : RandomSource (Watched σ) where
  next32 := take RandomSource.next32
  next64 := take RandomSource.next64
  nextBytes n := take (RandomSource.nextBytes n)
  nextBytes_length n w := RandomSource.nextBytes_length n w.source

variable [RandomSource σ]

theorem sourceMap : SourceMap (source : Watched σ → σ) where
  next32 _ := rfl
  next64 _ := rfl
  nextBytes _ _ := rfl

open RandomSource

/-- Words and bytes leave the record as it is. -/
theorem follows {w w' : Watched σ} (next : Follows w w') :
    Follows w.source w'.source ∧ w'.running = w.running ∧ w'.calls = w.calls := by
  cases next with
  | word32 => exact ⟨.word32 _, rfl, rfl⟩
  | word64 => exact ⟨.word64 _, rfl, rfl⟩
  | byteRun n => exact ⟨.byteRun n _, rfl, rfl⟩

theorem loopsEndHere {w : Watched σ} (here : LoopsEndHere w.source) : LoopsEndHere w := by
  have ends : ∀ {ω : Type} {next : σ → ω × σ} {accept : ω → Option Nat},
      (∃ tries, Generator.firstAccepted next accept tries w.source ≠ .unfinished) →
        ∃ tries, Generator.firstAccepted (take next) accept tries w ≠ .unfinished := by
    rintro ω next accept ⟨tries, ended⟩
    refine ⟨tries, fun unfinished => ended ?_⟩
    have keeps : ∀ v : Watched σ, next v.source = Prod.map id source (take next v) := fun _ => rfl
    rw [Generator.firstAccepted_map keeps, unfinished]
    rfl
  exact ⟨fun range positive => ends (here.below32 range positive),
    fun range positive => ends (here.below64 range positive),
    fun range positive => ends (here.belowExact range positive)⟩

end Watched

namespace Generator

/-- A generator with its invocations recorded under a name. -/
def watched (n : Name) (g : Generator (Watched σ) α) : Generator (Watched σ) α :=
  fun ctx w => (g ctx (w.enter n ctx.size)).mapSource Watched.leave

/-- **A record changes nothing.** -/
theorem commutes_watched {g : Generator (Watched σ) α} {g' : Generator σ α}
    (commutes : Commutes Watched.source g g') (n : Name) :
    Commutes Watched.source (watched n g) g' := by
  intro c c' alike w
  have same := commutes c c' alike (w.enter n c.size)
  rw [watched]
  cases drawn : g c (w.enter n c.size) <;> rw [drawn] at same <;> exact same

theorem lasts_watched {g : Generator (Watched σ) α} (lasts : g.Lasts) (n : Name) :
    (watched n g).Lasts := by
  intro c c' fuller w
  have continued := lasts c c' fuller (w.enter n c.size)
  rw [watched, watched, fuller.size]
  generalize g c (w.enter n c.size) = o, g c' (w.enter n c.size) = o' at continued ⊢
  cases continued with
  | value w same => exact .value w.leave same
  | failed e w => exact .failed e w.leave
  | unfinished => exact .unfinished _

variable [RandomSource σ]

/-- An invocation ends if it does so from the record with itself entered. -/
theorem ends_watched {table : Option (Overrides (Watched σ))} {I J : Watched σ → Prop}
    {size : Nat} {g : Generator (Watched σ) α} {Q : α → Prop} {E : DrawError → Prop} {n : Name}
    (ends : g.Ends table J size Q E) (enter : ∀ w, I w → J (w.enter n size))
    (leave : ∀ w, J w → I w.leave) : (watched n g).Ends table I size Q E := by
  intro w holds
  obtain ⟨o, ended, bound, draws⟩ := ends _ (enter w holds)
  refine ⟨o.mapSource Watched.leave, ?_, bound, fun fuel enough => ?_⟩
  · cases o with
    | value a w' => exact ⟨ended.1, leave w' ended.2⟩
    | failed e w' => exact ⟨ended.1, leave w' ended.2⟩
    | unfinished => exact ended
  · exact congrArg (Outcome.mapSource Watched.leave) (draws fuel enough)

end Generator

end SchemaData
