import SchemaData.Proofs.Alongside
import SchemaData.Proofs.Ends
import SchemaData.Proofs.Faults
import SchemaData.Proofs.Terminates
import SchemaData.Proofs.Under
import SchemaData.Proofs.Watch

/-!
# SchemaData.Proofs.Independence -- a draw depends on what it comes to

Two draws of one node, in two modules and under two tables, end alike if the modules and the
tables agree where the draw comes to (`Module.AgreeAt`): on the entries for the names of the
nodes it meets, and on the definitions of those names that have no entry.  What other names
stand for plays no part, nor does the definition of a name that has an entry.

The count of references is the one place where a draw looks at its whole module.  The modules
may differ in size, so the two draws may give up at different references.  They give up only
on chains that have no end, and these are the same in both (`Module.AgreeAt.goesOn_iff`).

* `congruence_reproducedBy`: that the draws of one generator are reproduced by another one, given
  enough fuel, goes through all combinators.
* `reproducedBy_along`: it goes back along a chain, from the node where the chain stops at a
  payload, an override or an undefined name (`reproducedBy_stop`).
* `reproducedBy_of_agreeAt`: so it holds of all nodes, by induction on the fuel of the first
  draw.

`drawn_of_agreement` says it of whole draws, in both directions.
-/

namespace SchemaData

set_option autoImplicit false

variable {σ α β : Type}

/-! ## Outcomes that differ in instances alone -/

/-- The same data, under labels with the same nodes. -/
inductive Value.Alike : Value → Value → Prop
  | mk {v w : Value} :
      w.type.expr = v.type.expr → v.payload.Paired Value.Alike w.payload → Alike v w

theorem Value.alike_refl (v : Value) : Value.Alike v v := by
  have paired : ∀ p : Payload, p.Paired Value.Alike p := by
    intro p
    induction p using Payload.inductionOnItems with
    | step p ih => exact Payload.paired_refl p fun v member => .mk rfl (ih v member)
  exact .mk rfl (paired v.payload)

/-- The same error, but for the name at which a loop was noticed. -/
inductive DrawError.Alike : DrawError → DrawError → Prop
  | same (e : DrawError) : Alike e e
  | looping (x y : Name) : Alike (.indirectionCycle x) (.indirectionCycle y)

/-- Both are values that `R` relates, or both are failures, and the source is left as the
same one. -/
inductive Outcome.Alike (R : α → β → Prop) : Outcome σ α → Outcome σ β → Prop
  | value {a : α} {b : β} (s : σ) : R a b → Alike R (.value a s) (.value b s)
  | failed {e e' : DrawError} (s : σ) : e.Alike e' → Alike R (.failed e s) (.failed e' s)

/-! ## Where a draw looks -/

/-- The generator does not look at the overrides in force: when it has fuel enough, its draws
depend on the budget alone. -/
def Generator.Blind (g : Generator σ α) : Prop :=
  ∀ c c' s, c'.size = c.size → c.fuel ≤ c'.fuel → g c s ≠ .unfinished → g c' s = g c s

namespace Module

/-- The names of the nodes to which a draw of a node can come. -/
def Mentions (m : Module) (table : Overrides σ) (e : TypeExpr) (n : Name) : Prop :=
  ∃ c, m.ReachesUnder table e c ∧ c.name? = some n

/-- Two modules with their tables agree in what a draw of a node looks at, and the entries to
which it comes do not look at tables. -/
structure AgreeAt (m m' : Module) (table table' : Overrides σ) (e : TypeExpr) : Prop where
  override : ∀ c, m.ReachesUnder table e c → c.override? table' = c.override? table
  definition : ∀ n, m.ReachesUnder table e (.reference n) →
    (TypeExpr.reference n).override? table = none → m'.get? n = m.get? n
  blind : ∀ c g, m.ReachesUnder table e c → c.override? table = some g → g.Blind

variable {m m' : Module} {table table' : Overrides σ} {e c : TypeExpr}

theorem agreeAt_of_names
    (entries : ∀ n, m.Mentions table e n → table'.get? n = table.get? n)
    (definitions : ∀ n, m.Mentions table e n → table.get? n = none → m'.get? n = m.get? n)
    (blind : ∀ n g, m.Mentions table e n → table.get? n = some g → g.Blind) :
    m.AgreeAt m' table table' e where
  override c reaches := by
    rw [TypeExpr.override?, TypeExpr.override?]
    cases named : c.name? with
    | none => rfl
    | some n => exact entries n ⟨c, reaches, named⟩
  definition n reaches plain := definitions n ⟨_, reaches, rfl⟩ plain
  blind c g reaches called := by
    obtain ⟨n, named, found⟩ := Option.bind_eq_some_iff.1 called
    exact blind n g ⟨c, reaches, named⟩ found

namespace AgreeAt

variable (agree : m.AgreeAt m' table table' e)

include agree

theorem here : e.override? table' = e.override? table :=
  agree.override e .refl

theorem next (plain : e.override? table = none) (leads : m.Leads e c) :
    m.AgreeAt m' table table' c where
  override d reaches := agree.override d (.head ⟨plain, leads⟩ reaches)
  definition n reaches := agree.definition n (.head ⟨plain, leads⟩ reaches)
  blind d g reaches := agree.blind d g (.head ⟨plain, leads⟩ reaches)

theorem next?_eq (plain : e.override? table = none) : m'.next? e = m.next? e := by
  cases e with
  | reference n => exact agree.definition n .refl plain
  | _ => rfl

theorem reachesUnder (reaches : m'.ReachesUnder table' e c) : m.ReachesUnder table e c := by
  induction reaches with
  | refl => exact .refl
  | @tail d c _ step ih =>
      obtain ⟨plain, leads⟩ := step
      rw [agree.override d ih] at plain
      cases leads with
      | child inside => exact ih.tail plain (.child inside)
      | @definition n target found =>
          rw [agree.definition n ih plain] at found
          exact ih.tail plain (.definition found)

theorem symm : m'.AgreeAt m table' table e where
  override c reaches := (agree.override c (agree.reachesUnder reaches)).symm
  definition n reaches plain := by
    have reaches := agree.reachesUnder reaches
    rw [agree.override _ reaches] at plain
    exact (agree.definition n reaches plain).symm
  blind c g reaches called := by
    have reaches := agree.reachesUnder reaches
    rw [agree.override c reaches] at called
    exact agree.blind c g reaches called

end AgreeAt

/-! ## Chains up to an override -/

/-- No override is called for a node, and the chain goes on behind it. -/
def GoesOn (m : Module) (table : Overrides σ) (e : TypeExpr) : Prop :=
  e.override? table = none ∧ m.next? e ≠ none

theorem AgreeAt.goesOn_iff (agree : m.AgreeAt m' table table' e) :
    m'.GoesOn table' e ↔ m.GoesOn table e := by
  rw [GoesOn, GoesOn, agree.here]
  exact and_congr_right fun plain => by rw [agree.next?_eq plain]

/-- The two chains are the same up to their first stop. -/
theorem AgreeAt.along {r : Nat} (along : m.Along (m.GoesOn table) r e c)
    (agree : m.AgreeAt m' table table' e) :
    m'.Along (m'.GoesOn table') r e c ∧ m.AgreeAt m' table table' c := by
  induction along with
  | here => exact ⟨.here, agree⟩
  | unwrap goes _ ih =>
      obtain ⟨rest, agree'⟩ := ih (agree.next goes.1 (.child List.mem_cons_self))
      exact ⟨.unwrap (agree.goesOn_iff.2 goes) rest, agree'⟩
  | @follow r n target c goes found _ ih =>
      obtain ⟨rest, agree'⟩ := ih (agree.next goes.1 (.definition found))
      have found' : m'.get? n = some target := (agree.next?_eq goes.1).trans found
      exact ⟨.follow (agree.goesOn_iff.2 goes) found' rest, agree'⟩

/-- A chain without a stop is endless. -/
theorem exists_looping_of_goesOn (all : ∀ r c, m.Along (m.GoesOn table) r e c → m.GoesOn table c) :
    ∃ x, m.head e = .looping x := by
  obtain ⟨r, -, along, -⟩ := along_of_headWithin (k := m.size + 1) all
  rw [← head] at along
  have further := (all r _ along).2
  cases answer : m.head e with
  | settled h =>
      rw [answer] at further
      exact absurd (next?_of_direct (direct_of_settled answer)) further
  | undefined x =>
      rw [answer] at further
      exact absurd (missing_of_undefined answer) further
  | looping x => exact ⟨x, rfl⟩

end Module

/-! ## Draws that are reproduced -/

namespace Generator

variable [RandomSource σ]

/-- When a draw of `g` under the one table ends, draws of `g'` under the other one end alike,
for all amounts of fuel from some bound on. -/
def ReproducedBy (table table' : Overrides σ) (fuel size : Nat) (R : α → β → Prop)
    (g : Generator σ α) (g' : Generator σ β) : Prop :=
  ∀ s, g (Context.start fuel size (some table)) s ≠ .unfinished →
    ∃ o', (g (Context.start fuel size (some table)) s).Alike R o' ∧
      ∃ bound, ∀ fuel', bound ≤ fuel' → g' (Context.start fuel' size (some table')) s = o'

variable {table table' : Overrides σ} {fuel size : Nat} {R : α → β → Prop}

/-- A blind generator reproduces its own draws. -/
theorem reproducedBy_of_blind {g : Generator σ α} {Q : α → α → Prop} (blind : g.Blind)
    (same : ∀ a, Q a a) : ReproducedBy table table' fuel size Q g g := by
  intro s ended
  refine ⟨g (Context.start fuel size (some table)) s, ?_, fuel, fun fuel' enough => ?_⟩
  · cases drawn : g (Context.start fuel size (some table)) s with
    | value a s' => exact .value s' (same a)
    | failed e s' => exact .failed s' (.same e)
    | unfinished => exact absurd drawn ended
  · exact blind _ _ s rfl enough ended

omit [RandomSource σ] in
/-- A loop that has ended is not changed by more tries. -/
theorem blind_of_firstAccepted {ω : Type} {next : σ → ω × σ} {accept : ω → Option α}
    {g : Generator σ α} (loop : ∀ ctx s, g ctx s = firstAccepted next accept ctx.fuel s) :
    g.Blind := by
  intro c c' s _ enough ended
  have succeeds : (firstAccepted next accept c.fuel s).Meets (fun _ => True) fun _ => False :=
    meets_firstAccepted (fun _ _ _ => trivial) c.fuel s
  rw [loop] at ended
  rw [loop, loop]
  cases drawn : firstAccepted next accept c.fuel s with
  | value a s' => exact firstAccepted_of_le enough drawn
  | failed e s' =>
      rw [drawn] at succeeds
      exact succeeds.elim
  | unfinished => exact absurd drawn ended

theorem reproducedBy_bind {γ δ : Type} {Q : γ → δ → Prop} {g : Generator σ α} {g' : Generator σ β}
    {f : α → Generator σ γ} {f' : β → Generator σ δ}
    (first : ReproducedBy table table' fuel size R g g')
    (next : ∀ a b, R a b → ReproducedBy table table' fuel size Q (f a) (f' b)) :
    ReproducedBy table table' fuel size Q (g >>= f) (g' >>= f') := by
  intro s ended
  change (g (Context.start fuel size (some table)) s).andThen _ ≠ _ at ended
  change ∃ o', Outcome.Alike Q ((g (Context.start fuel size (some table)) s).andThen _) o' ∧ _
  have begun : g (Context.start fuel size (some table)) s ≠ .unfinished := by
    intro none
    rw [none] at ended
    exact ended rfl
  obtain ⟨o', alike, n, draws⟩ := first s begun
  have unfolded : ∀ fuel', n ≤ fuel' → (g' >>= f') (Context.start fuel' size (some table')) s =
      o'.andThen fun b s' => f' b (Context.start fuel' size (some table')) s' := by
    intro fuel' enough
    rw [← draws fuel' enough]
    rfl
  generalize g (Context.start fuel size (some table)) s = o at alike ended ⊢
  cases alike with
  | @value a b s' holds =>
      obtain ⟨o', alike, k, further⟩ := next a b holds s' ended
      refine ⟨o', alike, max n k, fun fuel' enough => ?_⟩
      rw [unfolded fuel' (by omega)]
      exact further fuel' (by omega)
  | @failed e e' s' same => exact ⟨.failed e' s', .failed s' same, n, unfolded⟩

/-- **What is drawn is reproduced through all combinators.** -/
theorem congruence_reproducedBy :
    Congruence fun R g g' => ReproducedBy (σ := σ) table table' fuel size R g g' where
  pure {_ _ _ _ b} holds := fun s _ => ⟨.value b s, .value s holds, 0, fun _ _ => rfl⟩
  fail _ e := fun s _ => ⟨.failed e s, .failed s (.same e), 0, fun _ _ => rfl⟩
  bind := reproducedBy_bind
  size := fun s _ => ⟨.value size s, .value s rfl, 0, fun _ _ => rfl⟩
  word32 := reproducedBy_of_blind (fun _ _ _ _ _ _ => rfl) fun _ => rfl
  word64 := reproducedBy_of_blind (fun _ _ _ _ _ _ => rfl) fun _ => rfl
  byteRun _ := reproducedBy_of_blind (fun _ _ _ _ _ _ => rfl) fun _ => rfl
  below32 _ := reproducedBy_of_blind (blind_of_firstAccepted fun _ _ => rfl) fun _ => rfl
  below64 _ := reproducedBy_of_blind (blind_of_firstAccepted fun _ _ => rfl) fun _ => rfl
  belowExact _ := reproducedBy_of_blind (blind_of_firstAccepted fun _ _ => rfl) fun _ => rfl

/-! ## The steps of a draw -/

/-- A step of a draw spends one unit of fuel, in both draws. -/
theorem reproducedBy_walk {hops size' : Nat} {t t' : BoundType} {g : Generator σ α}
    {g' : Generator σ β} {f : α → Value} {f' : β → Value}
    (related : ReproducedBy table table' fuel size' R g g')
    (values : ∀ a b, R a b → Value.Alike (f a) (f' b))
    (step : ∀ s, drawValue (some table) (fuel + 1) hops none t size s =
      (g (Context.start fuel size' (some table)) s).map f)
    (step' : ∀ fuel s, drawValue (some table') (fuel + 1) hops none t' size s =
      (g' (Context.start fuel size' (some table')) s).map f') :
    ReproducedBy table table' (fuel + 1) size Value.Alike (walk (some table) hops none t)
      (walk (some table') hops none t') := by
  intro s ended
  change drawValue (some table) (fuel + 1) hops none t size s ≠ _ at ended
  change ∃ o', (drawValue (some table) (fuel + 1) hops none t size s).Alike _ o' ∧ _
  rw [step] at ended ⊢
  have begun : g (Context.start fuel size' (some table)) s ≠ .unfinished := by
    intro none
    rw [none] at ended
    exact ended rfl
  obtain ⟨o', alike, bound, draws⟩ := related s begun
  refine ⟨o'.map f', ?_, bound + 1, fun fuel' enough => ?_⟩
  · generalize g (Context.start fuel size' (some table)) s = o at alike ⊢
    cases alike with
    | value s' holds => exact .value s' (values _ _ holds)
    | failed s' same => exact .failed s' same
  · obtain ⟨k, rfl⟩ : ∃ k, fuel' = k + 1 := ⟨fuel' - 1, by omega⟩
    rw [← draws k (by omega)]
    exact step' k s

section Chain

variable {home home' : Instance} {e c : TypeExpr} {hops : Nat}

/-- Where a chain stops, both draws call the same override, draw the payload of one node, or
fail for the lack of a definition. -/
theorem reproducedBy_stop (agree : home.module.AgreeAt home'.module table table' e)
    (stop : ¬ home.module.GoesOn table e)
    (below : ∀ k < fuel, ∀ c, home.module.AgreeAt home'.module table table' c →
      ReproducedBy table table' k size Value.Alike (walk (some table) 0 none ⟨home, c⟩)
        (walk (some table') 0 none ⟨home', c⟩)) :
    ReproducedBy table table' fuel size Value.Alike (walk (some table) hops none ⟨home, e⟩)
      (walk (some table') hops none ⟨home', e⟩) := by
  cases fuel with
  | zero => exact fun s ended => absurd rfl ended
  | succ fuel =>
      have called : overrideOf (some table) none ⟨home, e⟩ = e.override? table :=
        overrideOf_none table _
      have called' : overrideOf (some table') none ⟨home', e⟩ = e.override? table :=
        (overrideOf_none table' _).trans agree.here
      cases entry : e.override? table with
      | some g =>
          rw [entry] at called called'
          have blind : ReproducedBy table table' fuel (size - overrideCost) Value.Alike g g :=
            reproducedBy_of_blind (agree.blind e g .refl entry) Value.alike_refl
          exact reproducedBy_walk blind (fun _ _ => id)
            (fun s => (drawValue_override called s).trans (Outcome.map_id _).symm)
            fun _ s => (drawValue_override called' s).trans (Outcome.map_id _).symm
      | none =>
          rw [entry] at called called'
          cases bears : e.isIndirect with
          | false =>
              have payloads : ReproducedBy table table' fuel size (Payload.Paired Value.Alike)
                  (payload ⟨home, e⟩) (payload ⟨home', e⟩) :=
                congruence_reproducedBy.payload rfl fun c child =>
                  below fuel (Nat.lt_succ_self fuel) c (agree.next entry (.child child))
              have values : ∀ p q, Payload.Paired Value.Alike p q →
                  Value.Alike ⟨⟨home, e⟩, p⟩ ⟨⟨home', e⟩, q⟩ := fun _ _ paired => .mk rfl paired
              exact reproducedBy_walk payloads values
                (drawValue_direct called bears) fun _ => drawValue_direct called' bears
          | true =>
              cases e with
              | newtype n u => exact absurd ⟨entry, nofun⟩ stop
              | reference n =>
                  have missing : home.module.get? n = none := by
                    by_contra defined
                    exact stop ⟨entry, defined⟩
                  have missing' : home'.module.get? n = none :=
                    (agree.next?_eq entry).trans missing
                  have fails : ReproducedBy table table' fuel size Value.Alike
                      (fail (.unresolvedReference n) : Generator σ Value)
                      (fail (.unresolvedReference n)) := congruence_reproducedBy.fail _ _
                  exact reproducedBy_walk fails (fun _ _ => id)
                    (drawValue_undefined called rfl missing)
                    fun _ => drawValue_undefined called' rfl missing'
              | _ => cases bears

/-- A draw is reproduced along a chain up to its stop, if the references on the way are few
enough for both modules. -/
theorem reproducedBy_along {r : Nat} (along : home.module.Along (home.module.GoesOn table) r e c)
    (stop : ¬ home.module.GoesOn table c)
    (agree : home.module.AgreeAt home'.module table table' e)
    (few : hops + r ≤ home.module.size) (few' : hops + r ≤ home'.module.size)
    (below : ∀ k < fuel, ∀ c, home.module.AgreeAt home'.module table table' c →
      ReproducedBy table table' k size Value.Alike (walk (some table) 0 none ⟨home, c⟩)
        (walk (some table') 0 none ⟨home', c⟩)) :
    ReproducedBy table table' fuel size Value.Alike (walk (some table) hops none ⟨home, e⟩)
      (walk (some table') hops none ⟨home', e⟩) := by
  induction along generalizing hops fuel with
  | here => exact reproducedBy_stop agree stop below
  | @unwrap r n u c goes _ ih =>
      cases fuel with
      | zero => exact fun s ended => absurd rfl ended
      | succ fuel =>
          have rest := ih stop (agree.next goes.1 (.child List.mem_cons_self)) few few'
            fun k less => below k (Nat.lt_succ_of_lt less)
          have goes' := agree.here.trans goes.1
          refine reproducedBy_walk rest ?_
            (drawValue_newtype ((overrideOf_none table _).trans goes.1) rfl)
            fun _ => drawValue_newtype ((overrideOf_none table' _).trans goes') rfl
          rintro v w ⟨-, paired⟩
          exact .mk rfl paired
  | @follow r n target c goes found _ ih =>
      cases fuel with
      | zero => exact fun s ended => absurd rfl ended
      | succ fuel =>
          have found' : home'.module.get? n = some target := (agree.next?_eq goes.1).trans found
          have few₁ : hops + 1 + r ≤ home.module.size := by omega
          have few₁' : hops + 1 + r ≤ home'.module.size := by omega
          have rest := ih stop (agree.next goes.1 (.definition found)) few₁ few₁'
            fun k less => below k (Nat.lt_succ_of_lt less)
          have plain := (overrideOf_none table ⟨home, .reference n⟩).trans goes.1
          have plain' := (overrideOf_none table' ⟨home', .reference n⟩).trans
            (agree.here.trans goes.1)
          have within : hops ≤ home.module.size := by omega
          have within' : hops ≤ home'.module.size := by omega
          exact reproducedBy_walk rest (fun _ _ => id)
            (fun s => (drawValue_reference plain rfl found within s).trans (Outcome.map_id _).symm)
            fun _ s => (drawValue_reference plain' rfl found' within' s).trans
              (Outcome.map_id _).symm

/-- A draw of a node whose chain has no stop fails at a loop. -/
theorem exists_bound_of_goesOn (all : ∀ r c, home.module.Along (home.module.GoesOn table) r e c →
      home.module.GoesOn table c) :
    ∃ x bound, ∀ fuel size (s : σ), drawValue (some table) fuel 0 none ⟨home, e⟩ size s =
      if bound ≤ fuel then .failed (.indirectionCycle x) s else .unfinished := by
  obtain ⟨x, looping⟩ := Module.exists_looping_of_goesOn all
  have plain : ∀ r c, home.module.Along
      (fun c => overrideOf (some table) none ⟨home, c⟩ = none) r e c →
        overrideOf (some table) none ⟨home, c⟩ = none := by
    intro r c along
    rw [overrideOf_none]
    refine (all r c (along.passed.imp fun d passed => ?_)).1
    exact ⟨(overrideOf_none table _).symm.trans passed.1, passed.2⟩
  have fault : (home.module.head e).fault? = some (.indirectionCycle x) := by
    rw [looping]
    rfl
  obtain ⟨bound, drawn⟩ := exists_bound_of_fault plain fault
  exact ⟨x, bound, drawn⟩

/-- **A draw of a node is reproduced where the modules and the tables agree.** -/
theorem reproducedBy_of_agreeAt (fuel size : Nat) (e : TypeExpr)
    (agree : home.module.AgreeAt home'.module table table' e) :
    ReproducedBy table table' fuel size Value.Alike (walk (some table) 0 none ⟨home, e⟩)
      (walk (some table') 0 none ⟨home', e⟩) := by
  induction fuel using Nat.strongRecOn generalizing e with
  | ind fuel ih =>
      by_cases stops : ∃ r c, home.module.Along (home.module.GoesOn table) r e c ∧
          ¬ home.module.GoesOn table c
      · obtain ⟨r, c, along, stop⟩ := stops
        obtain ⟨along', agree'⟩ := agree.along along
        have few : 0 + r ≤ home.module.size := by
          rw [Nat.zero_add]
          exact along.le_size stop
        have few' : 0 + r ≤ home'.module.size := by
          rw [Nat.zero_add]
          exact along'.le_size fun goes => stop (agree'.goesOn_iff.1 goes)
        exact reproducedBy_along along stop agree few few' ih
      · have all : ∀ r c, home.module.Along (home.module.GoesOn table) r e c →
            home.module.GoesOn table c := by
          intro r c along
          by_contra stop
          exact stops ⟨r, c, along, stop⟩
        have all' : ∀ r c, home'.module.Along (home'.module.GoesOn table') r e c →
            home'.module.GoesOn table' c := by
          intro r c along
          obtain ⟨along', agree'⟩ := agree.symm.along along
          exact agree'.goesOn_iff.1 (all r c along')
        obtain ⟨x, bound, drawn⟩ := exists_bound_of_goesOn (σ := σ) all
        obtain ⟨y, bound', drawn'⟩ := exists_bound_of_goesOn (σ := σ) all'
        intro s ended
        change drawValue (some table) fuel 0 none ⟨home, e⟩ size s ≠ _ at ended
        change ∃ o', (drawValue (some table) fuel 0 none ⟨home, e⟩ size s).Alike _ o' ∧ _
        rw [drawn] at ended ⊢
        split at ended
        · rename_i enough
          rw [if_pos enough]
          exact ⟨_, .failed s (.looping x y), bound', fun fuel' enough' =>
            (drawn' fuel' size s).trans (if_pos enough')⟩
        · exact absurd rfl ended

end Chain

end Generator

/-! ## Whole draws -/

variable [RandomSource σ]

/-- Whatever a draw ends with, the draws of the other generator with the same budget, from the
same source, and with fuel enough end with too. -/
def ValueGenerator.ReproducedBy (g g' : ValueGenerator σ) : Prop :=
  ∀ (ctx : Context σ) (s : σ), g.generator ctx s ≠ .unfinished →
    ∃ o', (g.generator ctx s).Alike Value.Alike o' ∧
      ∃ bound, ∀ ctx' : Context σ, ctx'.size = ctx.size → bound ≤ ctx'.fuel →
        g'.generator ctx' s = o'

theorem ValueGenerator.reproducedBy_of_agreeAt {home home' : Instance} {e : TypeExpr}
    {table table' : Overrides σ} (agree : home.module.AgreeAt home'.module table table' e) :
    (ValueGenerator.mk table ⟨home, e⟩).ReproducedBy ⟨table', ⟨home', e⟩⟩ := by
  intro ctx s ended
  obtain ⟨o', alike, bound, draws⟩ :=
    Generator.reproducedBy_of_agreeAt ctx.fuel ctx.size e agree s ended
  refine ⟨o', alike, bound, ?_⟩
  rintro ctx' size enough
  rw [← draws ctx'.fuel enough, ← size]
  rfl

/-- **A draw depends only on what it comes to.**  Let two modules have the same definitions,
or none, of the names without an entry that a draw of a node mentions in the first module and
under the first table; let the tables have the same entries, or none, for all names that it
mentions; and let these entries not look at the overrides in force.  Then the draws in the one
module and those in the other end alike: both with a value, of the same data and under the
same nodes, or both with the same error, but for the name at which a loop is noticed.  They
leave the source as the same one, and so they take the same words.  And if one of them does
not end, then the other one does not. -/
theorem drawn_of_agreement (t : BoundType) (home' : Instance) (table table' : Overrides σ)
    (entries : ∀ n, t.home.module.Mentions table t.expr n → table'.get? n = table.get? n)
    (definitions : ∀ n, t.home.module.Mentions table t.expr n → table.get? n = none →
      home'.module.get? n = t.home.module.get? n)
    (blind : ∀ n g, t.home.module.Mentions table t.expr n → table.get? n = some g → g.Blind) :
    (ValueGenerator.mk table t).ReproducedBy ⟨table', ⟨home', t.expr⟩⟩ ∧
      (ValueGenerator.mk table' ⟨home', t.expr⟩).ReproducedBy ⟨table, t⟩ := by
  have agree := Module.agreeAt_of_names entries definitions blind
  exact ⟨ValueGenerator.reproducedBy_of_agreeAt agree,
    ValueGenerator.reproducedBy_of_agreeAt agree.symm⟩

namespace Example

def row : Name := ⟨"t", "Row", by decide⟩

def plant : Name := ⟨"t", "Plant", by decide⟩

def count : Name := ⟨"t", "Count", by decide⟩

def badge : Name := ⟨"t", "Badge", by decide⟩

/-- Plants of plants, and numbers. -/
def orchard : Instance :=
  ⟨1, ⟨.ofList [
      (plant, .record plant [⟨"label", .primitive .int32⟩, ⟨"below", .array (.reference plant)⟩]),
      (count, .newtype count (.primitive .int32))]⟩⟩

/-- The same numbers without plants, and badges. -/
def nursery : Instance :=
  ⟨2, ⟨.ofList [(count, .newtype count (.primitive .int32)), (badge, .enum badge ["on"])]⟩⟩

def numberedPlant : TypeExpr :=
  .record row [⟨"plant", .reference plant⟩, ⟨"number", .reference count⟩]

/-- A plant without others below it, whatever its name. -/
def sapling (n : Name) : Generator Padded Value := do
  let label := Value.ofScalar (.int32 (← Generator.int32))
  pure ⟨⟨orchard, .reference n⟩, .record [label, ⟨.ofPrimitive .bool, .array []⟩]⟩

end Example

open Example in
/-- The plants have an override, so they need no definition; what is said of badges plays no
part. -/
theorem drawn_of_agreement_orchard :
    nursery.module.get? plant = none ∧ ∃ v w s bound,
      (ValueGenerator.mk (.ofNames [plant] sapling) ⟨orchard, numberedPlant⟩).generator
          (Context.start 9 0 none) ⟨[7, 8, 9]⟩ = .value v s ∧
        s = ⟨[9]⟩ ∧ Value.Alike v w ∧
        ∀ ctx : Context Padded, ctx.size = 0 → bound ≤ ctx.fuel →
          (ValueGenerator.mk (.ofNames [plant, badge] sapling) ⟨nursery, numberedPlant⟩).generator
            ctx ⟨[7, 8, 9]⟩ = .value w s := by
  let table : Overrides Padded := .ofNames [plant] sapling
  have names : ∀ n, orchard.module.Mentions table numberedPlant n → n ∈ [row, plant, count] := by
    rintro n ⟨c, reaches, named⟩
    have all : orchard.module.Throughout (fun c => ∀ n ∈ c.name?, n ∈ [row, plant, count])
        numberedPlant := Module.throughout_of_nodes (by decide) (by decide)
    exact all c reaches.reaches n named
  have entries : ∀ n, orchard.module.Mentions table numberedPlant n →
      (Overrides.ofNames [plant, badge] sapling).get? n = table.get? n := by
    intro n mentioned
    have other : n ≠ badge := by
      rintro rfl
      exact absurd (names badge mentioned) (by decide)
    rw [Overrides.get?_ofNames, Overrides.get?_ofNames]
    simp [other]
  have definitions : ∀ n, orchard.module.Mentions table numberedPlant n → table.get? n = none →
      nursery.module.get? n = orchard.module.get? n := by
    intro n mentioned missing
    have unlike : n ≠ plant := by
      rintro rfl
      cases missing
    have others : ∀ n ∈ [row, plant, count], n ≠ plant →
        nursery.module.get? n = orchard.module.get? n := by decide
    exact others n (names n mentioned) unlike
  have blind : ∀ n g, orchard.module.Mentions table numberedPlant n → table.get? n = some g →
      g.Blind := by
    intro n g _ found
    rw [Overrides.get?_ofNames] at found
    split at found
    · cases found
      exact fun _ _ _ _ _ _ => rfl
    · cases found
  obtain ⟨v, drawn⟩ : ∃ v, (ValueGenerator.mk table ⟨orchard, numberedPlant⟩).generator
      (Context.start 9 0 none) ⟨[7, 8, 9]⟩ = .value v ⟨[9]⟩ := ⟨_, rfl⟩
  obtain ⟨o', alike, bound, draws⟩ := (drawn_of_agreement ⟨orchard, numberedPlant⟩ nursery table
    (.ofNames [plant, badge] sapling) entries definitions blind).1 (Context.start 9 0 none)
      ⟨[7, 8, 9]⟩ (by rw [drawn]; nofun)
  rw [drawn] at alike
  cases alike with
  | @value _ w _ same => exact ⟨rfl, v, w, _, bound, drawn, rfl, same, draws⟩

end SchemaData
