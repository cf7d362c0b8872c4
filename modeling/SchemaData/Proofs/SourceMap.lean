import SchemaData.Proofs.Alongside

/-!
# SchemaData.Proofs.SourceMap -- draws commute with maps of sources

A source may hold more than the words that are drawn from it, for instance a record of
what happened.  `SourceMap π` says that `π` takes such a source to a plainer one that
gives the same words, and `drawValue_map` that a draw does not notice the difference: seen
through `π`, it ends in the same way and leaves the same source.

Under a table of overrides this needs the same of each override, so it is a relation of
two generators, `Commutes π g g'`.  The contexts of the two draws agree in their fuel, their
budget and in the draws of values (`Context.Alike`); a generator that looks at nothing else
need not know more.  With values that are related in the place of equal ones, the relation
goes through all combinators (`congruence_commutesUpTo`).  For a draw of a value, induction
on the fuel puts the nodes together.
-/

namespace SchemaData

set_option autoImplicit false

variable {τ σ α β : Type}

/-- The outcome with its source seen through `π`. -/
def Outcome.mapSource (π : τ → σ) : Outcome τ α → Outcome σ α
  | .value a w => .value a (π w)
  | .failed e w => .failed e (π w)
  | .unfinished => .unfinished

/-- An outcome, and the outcome that is seen of it through `π`, with values that `R` relates. -/
inductive Outcome.Seen (π : τ → σ) (R : α → β → Prop) : Outcome τ α → Outcome σ β → Prop
  | value {a : α} {b : β} (w : τ) : R a b → Seen π R (.value a w) (.value b (π w))
  | failed (e : DrawError) (w : τ) : Seen π R (.failed e w) (.failed e (π w))
  | unfinished : Seen π R .unfinished .unfinished

namespace Outcome

variable {π : τ → σ}

theorem mapSource_map (f : α → β) (o : Outcome τ α) :
    (o.map f).mapSource π = (o.mapSource π).map f := by
  cases o <;> rfl

theorem mapSource_eq_value_iff {o : Outcome τ α} {a : α} {s : σ} :
    o.mapSource π = .value a s ↔ ∃ w, o = .value a w ∧ π w = s := by
  cases o <;> simp [mapSource, and_comm]

theorem Seen.imp {R Q : α → β → Prop} {o : Outcome τ α} {o' : Outcome σ β} (seen : o.Seen π R o')
    (weaken : ∀ a b, R a b → Q a b) : o.Seen π Q o' := by
  cases seen with
  | value w holds => exact .value w (weaken _ _ holds)
  | failed e w => exact .failed e w
  | unfinished => exact .unfinished

theorem seen_eq_iff {o : Outcome τ α} {o' : Outcome σ α} :
    o.Seen π Eq o' ↔ o' = o.mapSource π := by
  constructor
  · rintro (⟨w, rfl⟩ | _ | _) <;> rfl
  · rintro rfl
    cases o with
    | value a w => exact .value w rfl
    | failed e w => exact .failed e w
    | unfinished => exact .unfinished

end Outcome

/-- Two contexts give the same budget and, seen through `π`, the same draws of values. -/
structure Context.Alike (π : τ → σ) (c : Context τ) (c' : Context σ) : Prop where
  fuel : c'.fuel = c.fuel
  size : c'.size = c.size
  draw : ∀ skip t size w, c'.draw skip t size (π w) = (c.draw skip t size w).mapSource π

/-- Seen through `π`, the draws of `g` are those of `g'`. -/
def Generator.Commutes (π : τ → σ) (g : Generator τ α) (g' : Generator σ α) : Prop :=
  ∀ c c', Context.Alike π c c' → ∀ w, g' c' (π w) = (g c w).mapSource π

/-- Seen through `π`, the draws of `g` are those of `g'`, but for values that `R` relates. -/
def Generator.CommutesUpTo (π : τ → σ) (R : α → β → Prop) (g : Generator τ α)
    (g' : Generator σ β) : Prop :=
  ∀ c c', Context.Alike π c c' → ∀ w, (g c w).Seen π R (g' c' (π w))

/-- Two tables have overrides for the same names, and these commute. -/
def Overrides.Commute (π : τ → σ) (table : Overrides τ) (table' : Overrides σ) : Prop :=
  ∀ n, (table.get? n = none ∧ table'.get? n = none) ∨
    ∃ g g', table.get? n = some g ∧ table'.get? n = some g' ∧ Generator.Commutes π g g'

namespace Generator

variable {π : τ → σ}

theorem commutes_pure (a : α) :
    Commutes π (pure a : Generator τ α) (pure a : Generator σ α) :=
  fun _ _ _ _ => rfl

theorem commutes_fail (e : DrawError) :
    Commutes π (fail e : Generator τ α) (fail e : Generator σ α) :=
  fun _ _ _ _ => rfl

theorem commutesUpTo_eq_iff {g : Generator τ α} {g' : Generator σ α} :
    CommutesUpTo π Eq g g' ↔ Commutes π g g' :=
  forall₄_congr fun _ _ _ _ => Outcome.seen_eq_iff

theorem commutes_sized {f : Nat → Generator τ α} {f' : Nat → Generator σ α}
    (each : ∀ n, Commutes π (f n) (f' n)) : Commutes π (sized f) (sized f') := by
  intro c c' alike w
  rw [sized, sized, alike.size]
  exact each c.size c c' alike w

theorem commutes_ofType (t : BoundType) :
    Commutes π (ofType t : Generator τ Value) (ofType t) := by
  intro c c' alike w
  rw [ofType, ofType, alike.size]
  exact alike.draw none t c.size w

theorem commutes_structural (t : BoundType) :
    Commutes π (structural t : Generator τ Value) (structural t) := by
  intro c c' alike w
  rw [structural, structural, alike.size]
  exact alike.draw t.name? t c.size w

/-- A loop that takes the same words ends in the same way. -/
theorem firstAccepted_map {ω : Type} {next : τ → ω × τ} {next' : σ → ω × σ}
    {accept : ω → Option α} (keeps : ∀ w, next' (π w) = Prod.map id π (next w)) (tries : Nat)
    (w : τ) :
    firstAccepted next' accept tries (π w) =
      (firstAccepted next accept tries w).mapSource π := by
  induction tries generalizing w with
  | zero => rfl
  | succ tries ih =>
      rw [firstAccepted, firstAccepted, keeps]
      cases answer : accept (next w).1 with
      | some a => simp only [Prod.map, id, answer, Outcome.mapSource]
      | none => simp only [Prod.map, id, answer, ih]

end Generator

variable [RandomSource τ] [RandomSource σ]

/-- A map of sources that keeps the words. -/
structure SourceMap (π : τ → σ) : Prop where
  next32 : ∀ w, RandomSource.next32 (π w) = Prod.map id π (RandomSource.next32 w)
  next64 : ∀ w, RandomSource.next64 (π w) = Prod.map id π (RandomSource.next64 w)
  nextBytes : ∀ n w, RandomSource.nextBytes n (π w) = Prod.map id π (RandomSource.nextBytes n w)

namespace Generator

variable {π : τ → σ}

omit [RandomSource τ] [RandomSource σ] in
theorem commutesUpTo_bind {γ δ : Type} {R : α → β → Prop} {Q : γ → δ → Prop} {g : Generator τ α}
    {g' : Generator σ β} {f : α → Generator τ γ} {f' : β → Generator σ δ}
    (first : CommutesUpTo π R g g') (next : ∀ a b, R a b → CommutesUpTo π Q (f a) (f' b)) :
    CommutesUpTo π Q (g >>= f) (g' >>= f') := by
  intro c c' alike w
  have seen := first c c' alike w
  change Outcome.Seen π Q ((g c w).andThen _) ((g' c' (π w)).andThen _)
  generalize g c w = o, g' c' (π w) = o' at seen ⊢
  cases seen with
  | value w holds => exact next _ _ holds c c' alike w
  | failed e w => exact .failed e w
  | unfinished => exact .unfinished

/-- **A map of sources that keeps the words goes through all combinators.** -/
theorem congruence_commutesUpTo (keeps : SourceMap π) : Congruence (CommutesUpTo π) where
  pure holds := fun _ _ _ w => .value w holds
  fail _ e := fun _ _ _ w => .failed e w
  bind := commutesUpTo_bind
  size := commutesUpTo_eq_iff.2 fun _ _ alike w => congrArg (Outcome.value · (π w)) alike.size
  word32 := commutesUpTo_eq_iff.2 fun _ _ _ w => by
    rw [word32, word32, keeps.next32]
    rfl
  word64 := commutesUpTo_eq_iff.2 fun _ _ _ w => by
    rw [word64, word64, keeps.next64]
    rfl
  byteRun n := commutesUpTo_eq_iff.2 fun _ _ _ w => by
    rw [byteRun, byteRun, keeps.nextBytes]
    rfl
  below32 range := commutesUpTo_eq_iff.2 fun c _ alike w => by
    rw [below32, below32, alike.fuel]
    exact firstAccepted_map keeps.next32 c.fuel w
  below64 range := commutesUpTo_eq_iff.2 fun c _ alike w => by
    rw [below64, below64, alike.fuel]
    exact firstAccepted_map keeps.next64 c.fuel w
  belowExact range := commutesUpTo_eq_iff.2 fun c _ alike w => by
    rw [belowExact, belowExact, alike.fuel]
    exact firstAccepted_map keeps.next32 c.fuel w

theorem commutes_payload (keeps : SourceMap π) (t : BoundType) :
    Commutes π (payload t : Generator τ Payload) (payload t) := by
  have paired : CommutesUpTo π (Payload.Paired Eq) (payload t : Generator τ Payload) (payload t) :=
    (congruence_commutesUpTo keeps).payload rfl fun c _ =>
      commutesUpTo_eq_iff.2 (commutes_ofType (t.child c))
  exact commutesUpTo_eq_iff.1 fun c c' alike w =>
    (paired c c' alike w).imp fun _ _ => Payload.eq_of_paired

end Generator

/-! ## Values of a type -/

section Tables

variable {π : τ → σ} {table : Overrides τ} {table' : Overrides σ}

omit [RandomSource τ] [RandomSource σ] in
/-- The override of a type in one table is related to the one in the other. -/
theorem Overrides.Commute.overrideOf (tables : table.Commute π table') (skip : Option Name)
    (t : BoundType) :
    (overrideOf (some table) skip t = none ∧ overrideOf (some table') skip t = none) ∨
      ∃ g g', overrideOf (some table) skip t = some g ∧ overrideOf (some table') skip t = some g' ∧
        Generator.Commutes π g g' := by
  unfold SchemaData.overrideOf
  cases named : t.name? with
  | none => exact .inl ⟨rfl, rfl⟩
  | some n =>
      by_cases passed : skip = some n
      · simp only [bind, Option.bind, if_pos passed, true_and, true_or]
      · simp only [bind, Option.bind, if_neg passed]
        exact tables n

/-- **Draws commute with maps of sources**, under tables whose overrides do. -/
theorem drawValue_map (keeps : SourceMap π) (tables : table.Commute π table') (fuel hops : Nat)
    (skip : Option Name) (t : BoundType) (size : Nat) (w : τ) :
    drawValue (some table') fuel hops skip t size (π w) =
      (drawValue (some table) fuel hops skip t size w).mapSource π := by
  induction fuel generalizing hops skip t size w with
  | zero => rfl
  | succ fuel ih =>
      have alike : ∀ size, Context.Alike π (Context.start fuel size (some table))
          (Context.start fuel size (some table')) :=
        fun _ => ⟨rfl, rfl, fun skip t size w => ih 0 skip t size w⟩
      obtain ⟨plain, plain'⟩ | ⟨g, g', found, found', commutes⟩ := tables.overrideOf skip t
      · cases t.way hops with
        | direct bears =>
            rw [drawValue_direct plain bears, drawValue_direct plain' bears,
              Generator.commutes_payload keeps t _ _ (alike size), Outcome.mapSource_map]
        | newtype form =>
            rw [drawValue_newtype plain form, drawValue_newtype plain' form, ih,
              Outcome.mapSource_map]
        | undefined form found =>
            rw [drawValue_undefined plain form found, drawValue_undefined plain' form found]
            rfl
        | cycle form found many =>
            rw [drawValue_cycle plain form found many, drawValue_cycle plain' form found many]
            rfl
        | definition form found few =>
            rw [drawValue_reference plain form found few,
              drawValue_reference plain' form found few, ih]
      · rw [drawValue_override found, drawValue_override found']
        exact commutes _ _ (alike _) w

end Tables

end SchemaData
