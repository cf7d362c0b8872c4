import Mathlib.Logic.Relation
import SchemaData.Proofs.Ensures
import SchemaData.Proofs.Gives

/-!
# SchemaData.Proofs.Ends -- draws that end

A draw takes words from its source until one is accepted, and nothing in it says that
one ever is.  `RandomSource.LoopsEnd s` says so of the source: from `s` on, every loop
for a number of a range ends.

`g.Ends table I size Q E` says that a draw of `g` under a table of overrides ends: with a
value that satisfies `Q` or an error that satisfies `E`, and with the same outcome for all
amounts of fuel from some bound on.  The invariant `I` holds of the source before the draw
and after it; what it must say of a source is `RandomSource.Steady`, and it may say more.

There is one rule for each combinator, as for `Generator.Ensures`.  `ends_payload` says it
of one node: the draw of its payload ends if the node passes `TypeExpr.checkLocal`, so that
there is something to choose from, and if the draws of its children end.  The rules of the
last section are the steps of a draw of a node under a table.
-/

namespace SchemaData

set_option autoImplicit false

variable {σ α β : Type}

/-- The outcome is a value or a failure of the kinds said, and leaves a source that
satisfies `I`. -/
def Outcome.Ended (I : σ → Prop) (Q : α → Prop) (E : DrawError → Prop) : Outcome σ α → Prop
  | .value a s => Q a ∧ I s
  | .failed e s => E e ∧ I s
  | .unfinished => False

theorem Outcome.map_id (o : Outcome σ α) : o.map id = o := by
  cases o <;> rfl

variable [RandomSource σ]

namespace RandomSource

/-- The states that a word or a run of bytes leaves. -/
inductive Follows : σ → σ → Prop
  | word32 (s : σ) : Follows s (next32 s).2
  | word64 (s : σ) : Follows s (next64 s).2
  | byteRun (n : Nat) (s : σ) : Follows s (nextBytes n s).2

/-- A state to which a source can come. -/
def Later : σ → σ → Prop := Relation.ReflTransGen Follows

/-- In this state, every loop for a number of a range ends. -/
structure LoopsEndHere (s : σ) : Prop where
  below32 : ∀ range, 0 < range → ∃ tries,
    Generator.firstAccepted next32 (fun w => Uniform.pick? 32 range w.toNat) tries s ≠ .unfinished
  below64 : ∀ range, 0 < range → ∃ tries,
    Generator.firstAccepted next64 (fun w => Uniform.pick? 64 range w.toNat) tries s ≠ .unfinished
  belowExact : ∀ range, 0 < range → ∃ tries,
    Generator.firstAccepted next32 (fun w => Uniform.pickExact? 32 range w.toNat) tries s ≠
      .unfinished

/-- Every loop for a number of a range ends, in this state and in all later ones. -/
def LoopsEnd (s : σ) : Prop := ∀ s', Later s s' → LoopsEndHere s'

/-- Where `I` holds, loops end, and it holds of the next state again. -/
structure Steady (I : σ → Prop) : Prop where
  loops : ∀ s, I s → LoopsEndHere s
  next : ∀ s s', I s → Follows s s' → I s'

theorem steady_loopsEnd : Steady (LoopsEnd : σ → Prop) where
  loops s loops := loops s .refl
  next _ _ loops follows s'' further := loops s'' (.head follows further)

/-- A loop leaves a later state. -/
theorem Steady.firstAccepted {I : σ → Prop} (steady : Steady I) {ω : Type} {next : σ → ω × σ}
    {accept : ω → Option α} {a : α} {tries : Nat} {s s' : σ}
    (takes : ∀ s, Follows s (next s).2) (holds : I s)
    (ended : Generator.firstAccepted next accept tries s = .value a s') : I s' := by
  induction tries generalizing s with
  | zero => cases ended
  | succ tries ih =>
      have still := steady.next s _ holds (takes s)
      rw [Generator.firstAccepted] at ended
      split at ended
      · cases ended
        exact still
      · exact ih still ended

end RandomSource

namespace Generator

open RandomSource

/-- Under a table, a draw from a source that satisfies `I` ends as said, and the outcome no
longer depends on the fuel. -/
def Ends (table : Option (Overrides σ)) (I : σ → Prop) (size : Nat) (g : Generator σ α)
    (Q : α → Prop) (E : DrawError → Prop) : Prop :=
  ∀ s, I s → ∃ o : Outcome σ α, o.Ended I Q E ∧
    ∃ bound, ∀ fuel, bound ≤ fuel → g (Context.start fuel size table) s = o

variable {table : Option (Overrides σ)} {I : σ → Prop} {size : Nat} {E : DrawError → Prop}

theorem Ends.imp {g : Generator σ α} {Q R : α → Prop} (ends : g.Ends table I size Q E)
    (values : ∀ a, Q a → R a) : g.Ends table I size R E := by
  intro s holds
  obtain ⟨o, ended, bound, draws⟩ := ends s holds
  refine ⟨o, ?_, bound, draws⟩
  cases o with
  | value a s' => exact ⟨values a ended.1, ended.2⟩
  | failed e s' => exact ended
  | unfinished => exact ended

theorem ends_pure {a : α} {Q : α → Prop} (good : Q a) :
    (pure a : Generator σ α).Ends table I size Q E :=
  fun s holds => ⟨.value a s, ⟨good, holds⟩, 0, fun _ _ => rfl⟩

theorem ends_fail {e : DrawError} {Q : α → Prop} (good : E e) :
    (fail e : Generator σ α).Ends table I size Q E :=
  fun s holds => ⟨.failed e s, ⟨good, holds⟩, 0, fun _ _ => rfl⟩

theorem ends_bind {g : Generator σ α} {f : α → Generator σ β} {Q : α → Prop} {R : β → Prop}
    (first : g.Ends table I size Q E) (next : ∀ a, Q a → (f a).Ends table I size R E) :
    (g >>= f).Ends table I size R E := by
  intro s holds
  obtain ⟨o, ended, n, draws⟩ := first s holds
  have unfolded : ∀ fuel, (g >>= f) (Context.start fuel size table) s =
      (g (Context.start fuel size table) s).andThen
        fun a s' => f a (Context.start fuel size table) s' := fun _ => rfl
  cases o with
  | value a s' =>
      obtain ⟨o, ended', k, further⟩ := next a ended.1 s' ended.2
      refine ⟨o, ended', max n k, fun fuel enough => ?_⟩
      rw [unfolded, draws fuel (by omega)]
      exact further fuel (by omega)
  | failed e s' =>
      refine ⟨.failed e s', ended, n, fun fuel enough => ?_⟩
      rw [unfolded, draws fuel enough]
      rfl
  | unfinished => exact ended.elim

/-- A generator followed by a function of its value. -/
theorem ends_map {g : Generator σ α} {f : α → β} {R : β → Prop}
    (ends : g.Ends table I size (fun a => R (f a)) E) :
    (g >>= fun a => pure (f a)).Ends table I size R E :=
  ends_bind ends fun _ good => ends_pure good

/-! ## Words -/

theorem ends_size : (Generator.size : Generator σ Nat).Ends table I size (fun _ => True) E :=
  fun s holds => ⟨.value size s, ⟨trivial, holds⟩, 0, fun _ _ => rfl⟩

section Words

variable (steady : Steady I)

include steady

/-- The draw of a generator that is one loop ends where that loop ends. -/
theorem ends_of_firstAccepted {ω : Type} {next : σ → ω × σ} {accept : ω → Option α}
    {g : Generator σ α} {Q : α → Prop}
    (loop : ∀ ctx s, g ctx s = firstAccepted next accept ctx.fuel s)
    (takes : ∀ s, Follows s (next s).2) (accepted : ∀ w a, accept w = some a → Q a)
    (ends : ∀ s : σ, LoopsEndHere s → ∃ tries, firstAccepted next accept tries s ≠ .unfinished) :
    g.Ends table I size Q E := by
  intro s holds
  obtain ⟨tries, finished⟩ := ends s (steady.loops s holds)
  have meets : (firstAccepted next accept tries s).Meets Q fun _ => False :=
    meets_firstAccepted accepted tries s
  cases ended : firstAccepted next accept tries s with
  | value a s' =>
      rw [ended] at meets
      refine ⟨.value a s', ⟨meets, steady.firstAccepted takes holds ended⟩, tries, ?_⟩
      exact fun fuel enough => (loop _ s).trans (firstAccepted_of_le enough ended)
  | failed e s' =>
      rw [ended] at meets
      exact meets.elim
  | unfinished => exact absurd ended finished

variable {range : Nat}

theorem ends_below32 (positive : 0 < range) :
    (below32 range : Generator σ Nat).Ends table I size (· < range) E :=
  ends_of_firstAccepted steady (fun _ _ => rfl) .word32
    (fun w _ accepted => Uniform.pick?_lt w.toNat_lt positive accepted)
    fun _ here => here.below32 range positive

theorem ends_below64 (positive : 0 < range) :
    (below64 range : Generator σ Nat).Ends table I size (· < range) E :=
  ends_of_firstAccepted steady (fun _ _ => rfl) .word64
    (fun w _ accepted => Uniform.pick?_lt w.toNat_lt positive accepted)
    fun _ here => here.below64 range positive

theorem ends_belowExact (positive : 0 < range) :
    (belowExact range : Generator σ Nat).Ends table I size (· < range) E :=
  ends_of_firstAccepted steady (fun _ _ => rfl) .word32
    (fun w _ accepted => Uniform.pickExact?_lt w.toNat_lt positive accepted)
    fun _ here => here.belowExact range positive

theorem ends_belowIndex (positive : 0 < range) :
    (belowIndex range : Generator σ Nat).Ends table I size (· < range) E := by
  unfold belowIndex
  split
  · exact ends_below32 steady positive
  · exact ends_below64 steady positive

theorem ends_word32 : (word32 : Generator σ UInt32).Ends table I size (fun _ => True) E :=
  fun s holds =>
    ⟨.value _ _, ⟨trivial, steady.next s _ holds (.word32 s)⟩, 0, fun _ _ => rfl⟩

theorem ends_word64 : (word64 : Generator σ UInt64).Ends table I size (fun _ => True) E :=
  fun s holds =>
    ⟨.value _ _, ⟨trivial, steady.next s _ holds (.word64 s)⟩, 0, fun _ _ => rfl⟩

theorem ends_byteRun (n : Nat) :
    (byteRun n : Generator σ (List UInt8)).Ends table I size (fun _ => True) E :=
  fun s holds =>
    ⟨.value _ _, ⟨trivial, steady.next s _ holds (.byteRun n s)⟩, 0, fun _ _ => rfl⟩

end Words

/-! ## Repetition and choice -/

theorem ends_vectorOf {g : Generator σ α} {Q : α → Prop} (each : g.Ends table I size Q E)
    (n : Nat) : (vectorOf n g).Ends table I size (fun _ => True) E := by
  induction n with
  | zero => exact ends_pure trivial
  | succ n ih => exact ends_bind each fun _ _ => ends_map ih

section Nodes

variable (steady : Steady I)

include steady

theorem ends_length : (length : Generator σ Nat).Ends table I size (fun _ => True) E := by
  have below : (below64 (size + 1) : Generator σ Nat).Ends table I size (fun _ => True) E :=
    (ends_below64 steady (Nat.succ_pos size)).imp fun _ _ => trivial
  exact below

theorem ends_listOf {g : Generator σ α} {Q : α → Prop} (each : g.Ends table I size Q E) :
    (listOf g).Ends table I size (fun _ => True) E :=
  ends_bind (ends_length steady) fun n _ => ends_vectorOf each n

theorem ends_chooseFrom {what : String} {items : List α} (some : items ≠ []) :
    (chooseFrom what items : Generator σ α).Ends table I size (· ∈ items) E := by
  obtain ⟨a, items, rfl⟩ := List.exists_cons_of_ne_nil some
  have chosen : (choose (a :: items) : Generator σ (Option α)).Ends table I size
      (fun o => ∃ b ∈ a :: items, o = Option.some b) E := by
    refine ends_map ((ends_belowIndex steady (Nat.succ_pos _)).imp ?_)
    intro i inRange
    exact ⟨_, List.getElem_mem inRange, List.getElem?_eq_getElem inRange⟩
  apply ends_bind chosen
  rintro _ ⟨b, member, rfl⟩
  exact ends_pure member

/-! ## Native data -/

theorem ends_string : (string : Generator σ String).Ends table I size (fun _ => True) E := by
  have char : (char : Generator σ Char).Ends table I size (fun _ => True) E :=
    ends_map ((ends_belowExact steady (by decide)).imp fun _ _ => trivial)
  exact ends_map (ends_listOf steady char)

theorem ends_date : (date : Generator σ Int).Ends table I size (fun _ => True) E :=
  ends_map ((ends_below32 steady (by decide)).imp fun _ _ => trivial)

theorem ends_datetime : (datetime : Generator σ Instant).Ends table I size (fun _ => True) E := by
  refine ends_bind (ends_date steady) fun day _ => ?_
  exact ends_map ((ends_below64 steady (by decide)).imp fun _ _ => trivial)

theorem ends_scalar (p : Primitive) :
    (scalar p : Generator σ Scalar).Ends table I size (fun _ => True) E := by
  have bits32 : (word32 : Generator σ UInt32).Ends table I size (fun _ => True) E :=
    ends_word32 steady
  have bits64 : (word64 : Generator σ UInt64).Ends table I size (fun _ => True) E :=
    ends_word64 steady
  cases p with
  | bool => exact ends_map (ends_map bits32)
  | bytes => exact ends_map (ends_bind (ends_length steady) fun n _ => ends_byteRun steady n)
  | int32 => exact ends_map (ends_map bits32)
  | int64 => exact ends_map (ends_map bits64)
  | float32 => exact ends_map (ends_bind ends_size fun _ _ => ends_map bits32)
  | float64 => exact ends_map (ends_bind ends_size fun _ _ => ends_map bits64)
  | string => exact ends_map (ends_string steady)
  | date => exact ends_map (ends_date steady)
  | datetime => exact ends_map (ends_datetime steady)

/-! ## Payloads -/

variable {t : BoundType}

omit steady in
theorem ends_components {fields : List (Field TypeExpr)}
    (draws : ∀ f ∈ fields,
      (ofType (t.child f.type) : Generator σ Value).Ends table I size (fun _ => True) E) :
    (components t fields : Generator σ (List Value)).Ends table I size (fun _ => True) E := by
  induction fields with
  | nil => exact ends_pure trivial
  | cons f fields ih =>
      obtain ⟨first, rest⟩ := List.forall_mem_cons.1 draws
      exact ends_bind first fun _ _ => ends_map (ih rest)

theorem ends_entries {item : BoundType}
    (draw : (ofType item : Generator σ Value).Ends table I size (fun _ => True) E) :
    (entries item : Generator σ (List (String × Value))).Ends table I size (fun _ => True) E :=
  ends_bind (ends_listOf steady (ends_string steady)) fun _ _ =>
    ends_map (ends_vectorOf draw _)

theorem ends_content {item : BoundType}
    (draw : (ofType item : Generator σ Value).Ends table I size (fun _ => True) E) :
    (content item : Generator σ (Option Value)).Ends table I size (fun _ => True) E := by
  have index : (weightedIndex optionalWeights : Generator σ Nat).Ends table I size
      (fun _ => True) E :=
    ends_map ((ends_belowExact steady (by decide)).imp fun _ _ => trivial)
  refine ends_bind index fun i _ => ?_
  by_cases none : i = 0
  · rw [if_pos none]
    exact ends_pure trivial
  · rw [if_neg none]
    exact ends_map draw

/-- A node that passes its own check has something to choose from wherever a draw of
it chooses. -/
theorem ends_payload (direct : t.expr.isIndirect = false) (sound : t.expr.checkLocal = .ok ())
    (draws : ∀ c ∈ t.expr.children,
      (ofType (t.child c) : Generator σ Value).Ends table I size (fun _ => True) E) :
    (payload t : Generator σ Payload).Ends table I size (fun _ => True) E := by
  obtain ⟨home, e⟩ := t
  cases e with
  | primitive p => exact ends_map (ends_scalar steady p)
  | array item => exact ends_map (ends_listOf steady (draws item List.mem_cons_self))
  | map item => exact ends_map (ends_entries steady (draws item List.mem_cons_self))
  | optional item => exact ends_map (ends_content steady (draws item List.mem_cons_self))
  | enum n symbols =>
      have some : symbols ≠ [] := by
        rintro rfl
        cases sound
      exact ends_map ((ends_chooseFrom steady some).imp fun _ _ => trivial)
  | record n fields =>
      exact ends_map (ends_components fun f member => draws f.type (List.mem_map_of_mem member))
  | variant n cases =>
      have some : cases ≠ [] := by
        rintro rfl
        cases sound
      refine ends_bind (ends_chooseFrom steady some) fun c chosen => ?_
      exact ends_map (ends_components fun f member =>
        draws f.type (TypeExpr.mem_children_of_parameter chosen member))
  | newtype n u | reference n => cases direct

end Nodes

/-! ## The steps of a draw -/

/-- A draw of a value under a table, after `hops` references and with the override of one
name passed over. -/
def walk (table : Option (Overrides σ)) (hops : Nat) (skip : Option Name) (t : BoundType) :
    Generator σ Value :=
  fun ctx s => drawValue table ctx.fuel hops skip t ctx.size s

variable {hops : Nat} {skip : Option Name} {t : BoundType} {n : Name}

/-- A step of a draw spends one unit of fuel. -/
theorem ends_walk {g : Generator σ α} {size' : Nat} {f : α → Value}
    (ends : g.Ends table I size' (fun _ => True) E)
    (step : ∀ fuel s, drawValue table (fuel + 1) hops skip t size s =
      (g (Context.start fuel size' table) s).map f) :
    (walk table hops skip t).Ends table I size (fun _ => True) E := by
  intro s holds
  obtain ⟨o, ended, bound, draws⟩ := ends s holds
  refine ⟨o.map f, ?_, bound + 1, fun fuel enough => ?_⟩
  · cases o <;> exact ended
  · obtain ⟨fuel, rfl⟩ : ∃ k, fuel = k + 1 := ⟨fuel - 1, by omega⟩
    rw [← draws fuel (by omega)]
    exact step fuel s

theorem ends_walk_override {g : Generator σ Value} (found : overrideOf table skip t = some g)
    (ends : g.Ends table I (size - overrideCost) (fun _ => True) E) :
    (walk table hops skip t).Ends table I size (fun _ => True) E :=
  ends_walk ends fun fuel s => by
    rw [drawValue_override found, Outcome.map_id]

theorem ends_walk_direct (plain : overrideOf table skip t = none)
    (direct : t.expr.isIndirect = false)
    (ends : (payload t : Generator σ Payload).Ends table I size (fun _ => True) E) :
    (walk table hops skip t).Ends table I size (fun _ => True) E :=
  ends_walk ends fun _ s => drawValue_direct plain direct s

theorem ends_walk_newtype {u : TypeExpr} (plain : overrideOf table skip t = none)
    (form : t.expr = .newtype n u)
    (ends : (walk table hops skip (t.child u)).Ends table I size (fun _ => True) E) :
    (walk table hops skip t).Ends table I size (fun _ => True) E :=
  ends_walk ends fun _ s => drawValue_newtype plain form s

theorem ends_walk_reference {target : TypeExpr} (plain : overrideOf table skip t = none)
    (form : t.expr = .reference n) (found : t.home.module.get? n = some target)
    (few : hops ≤ t.home.module.size)
    (ends : (walk table (hops + 1) skip (t.child target)).Ends table I size (fun _ => True) E) :
    (walk table hops skip t).Ends table I size (fun _ => True) E :=
  ends_walk ends fun fuel s => by
    rw [drawValue_reference plain form found few, Outcome.map_id]
    rfl

theorem ends_walk_cycle {target : TypeExpr} (plain : overrideOf table skip t = none)
    (form : t.expr = .reference n) (found : t.home.module.get? n = some target)
    (many : t.home.module.size < hops) (good : E (.indirectionCycle n)) :
    (walk table hops skip t).Ends table I size (fun _ => True) E := by
  have failing : (fail (.indirectionCycle n) : Generator σ Value).Ends table I size
      (fun _ => True) E := ends_fail good
  have step : ∀ fuel s, drawValue table (fuel + 1) hops skip t size s =
      Outcome.map id (fail (.indirectionCycle n) (Context.start fuel size table) s) :=
    fun _ s => drawValue_cycle plain form found many s
  exact ends_walk failing step

/-- **What a draw of one node needs to end.**  Its override ends if there is one; and if
not, the draws of its children end, or that of the node behind it on its chain. -/
theorem ends_walk_node (steady : Steady I) {home : Instance} {e : TypeExpr}
    (sound : e.checkLocal = .ok ())
    (closed : ∀ n, e = .reference n → home.module.contains n = true)
    (cycle : ∀ n, E (.indirectionCycle n))
    (covered : ∀ g, overrideOf table skip ⟨home, e⟩ = some g →
      g.Ends table I (size - overrideCost) (fun _ => True) E)
    (children : overrideOf table skip ⟨home, e⟩ = none → ∀ c ∈ e.children,
      (walk table 0 none ⟨home, c⟩).Ends table I size (fun _ => True) E)
    (underlying : overrideOf table skip ⟨home, e⟩ = none → ∀ n u, e = .newtype n u →
      (walk table hops skip ⟨home, u⟩).Ends table I size (fun _ => True) E)
    (definition : overrideOf table skip ⟨home, e⟩ = none → ∀ n target, e = .reference n →
      home.module.get? n = some target → hops ≤ home.module.size →
        (walk table (hops + 1) skip ⟨home, target⟩).Ends table I size (fun _ => True) E) :
    (walk table hops skip ⟨home, e⟩).Ends table I size (fun _ => True) E := by
  cases found : overrideOf table skip ⟨home, e⟩ with
  | some g => exact ends_walk_override found (covered g found)
  | none =>
      cases e with
      | newtype n u => exact ends_walk_newtype found rfl (underlying found n u rfl)
      | reference n =>
          obtain ⟨target, defined⟩ := (home.module.contains_iff n).1 (closed n rfl)
          rcases Nat.lt_or_ge home.module.size hops with many | few
          · exact ends_walk_cycle found rfl defined many (cycle n)
          · exact ends_walk_reference found rfl defined few
              (definition found n target rfl defined few)
      | _ => exact ends_walk_direct found rfl (ends_payload steady rfl sound (children found))

end Generator

end SchemaData
