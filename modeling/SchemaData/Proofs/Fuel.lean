import SchemaData.Proofs.Alongside
import SchemaData.Proofs.Under

/-!
# SchemaData.Proofs.Fuel -- more fuel changes no draw that has ended

The fuel of a draw is there to make it a total function.  So all that it may decide is
whether the draw ends: with more fuel a draw that has ended ends in the same way, and one
that has not may still go on.  `Outcome.Continued` is this relation of two outcomes, and
`drawValue_continued` says that it holds of the draws of a type with less and with more
fuel, under every table of overrides that have the property themselves (`Generator.Lasts`).

As for maps of sources, the contexts of the two draws are related (`Context.Fuller`), and
with values that are related in the place of equal ones the relation goes through all
combinators (`congruence_lastsUpTo`).

With this a draw that is computed once, with some fuel, is known for all larger amounts.
-/

namespace SchemaData

set_option autoImplicit false

variable {σ α β : Type}

/-- An outcome, and one with more fuel, with values that `R` relates. -/
inductive Outcome.Continued (R : α → β → Prop) : Outcome σ α → Outcome σ β → Prop
  | value {a : α} {b : β} (s : σ) : R a b → Continued R (.value a s) (.value b s)
  | failed (e : DrawError) (s : σ) : Continued R (.failed e s) (.failed e s)
  | unfinished (o : Outcome σ β) : Continued R .unfinished o

namespace Outcome

theorem Continued.imp {R Q : α → β → Prop} {o : Outcome σ α} {o' : Outcome σ β}
    (continued : o.Continued R o') (weaken : ∀ a b, R a b → Q a b) : o.Continued Q o' := by
  cases continued with
  | value s holds => exact .value s (weaken _ _ holds)
  | failed e s => exact .failed e s
  | unfinished => exact .unfinished _

theorem Continued.map {o o' : Outcome σ α} (continued : o.Continued Eq o') (f : α → β) :
    (o.map f).Continued Eq (o'.map f) := by
  cases continued with
  | value s same => exact .value s (congrArg f same)
  | failed e s => exact .failed e s
  | unfinished => exact .unfinished _

theorem Continued.value_eq {o : Outcome σ α} {a : α} {s : σ}
    (continued : (Outcome.value a s).Continued Eq o) : o = .value a s := by
  cases continued with
  | value s same => rw [same]

end Outcome

/-- Two contexts with the same budget, the second with no less fuel, in itself and in its
draws of values. -/
structure Context.Fuller (c c' : Context σ) : Prop where
  fuel : c.fuel ≤ c'.fuel
  size : c'.size = c.size
  draw : ∀ skip t size s, (c.draw skip t size s).Continued Eq (c'.draw skip t size s)

namespace Generator

/-- What has been drawn by `g` is drawn by `g'` with more fuel, but for values that `R`
relates. -/
def LastsUpTo (R : α → β → Prop) (g : Generator σ α) (g' : Generator σ β) : Prop :=
  ∀ c c', Context.Fuller c c' → ∀ s, (g c s).Continued R (g' c' s)

/-- More fuel changes no draw of `g` that has ended. -/
def Lasts (g : Generator σ α) : Prop := LastsUpTo Eq g g

theorem lasts_pure (a : α) : (pure a : Generator σ α).Lasts :=
  fun _ _ _ s => .value s rfl

theorem lasts_fail (e : DrawError) : (fail e : Generator σ α).Lasts :=
  fun _ _ _ s => .failed e s

theorem lasts_sized {f : Nat → Generator σ α} (each : ∀ n, (f n).Lasts) : (sized f).Lasts := by
  intro c c' fuller s
  rw [sized, sized, fuller.size]
  exact each c.size c c' fuller s

theorem lasts_ofType (t : BoundType) : (ofType t : Generator σ Value).Lasts := by
  intro c c' fuller s
  rw [ofType, ofType, fuller.size]
  exact fuller.draw none t c.size s

theorem lasts_structural (t : BoundType) : (structural t : Generator σ Value).Lasts := by
  intro c c' fuller s
  rw [structural, structural, fuller.size]
  exact fuller.draw t.name? t c.size s

theorem lastsUpTo_bind {γ δ : Type} {R : α → β → Prop} {Q : γ → δ → Prop} {g : Generator σ α}
    {g' : Generator σ β} {f : α → Generator σ γ} {f' : β → Generator σ δ}
    (first : LastsUpTo R g g') (next : ∀ a b, R a b → LastsUpTo Q (f a) (f' b)) :
    LastsUpTo Q (g >>= f) (g' >>= f') := by
  intro c c' fuller s
  have continued := first c c' fuller s
  change Outcome.Continued Q ((g c s).andThen _) ((g' c' s).andThen _)
  generalize g c s = o, g' c' s = o' at continued ⊢
  cases continued with
  | value s holds => exact next _ _ holds c c' fuller s
  | failed e s => exact .failed e s
  | unfinished => exact .unfinished _

/-- A loop that may take more words. -/
theorem firstAccepted_continued {ω : Type} (next : σ → ω × σ) (accept : ω → Option α) {n k : Nat}
    (le : n ≤ k) (s : σ) :
    (firstAccepted next accept n s).Continued Eq (firstAccepted next accept k s) := by
  induction n generalizing s k with
  | zero => exact .unfinished _
  | succ n ih =>
      obtain ⟨k, rfl⟩ : ∃ j, k = j + 1 := ⟨k - 1, by omega⟩
      rw [firstAccepted, firstAccepted]
      cases accept (next s).1 with
      | some a => exact .value _ rfl
      | none => exact ih (by omega) _

variable [RandomSource σ]

/-- **More fuel goes through all combinators.** -/
theorem congruence_lastsUpTo : Congruence (LastsUpTo (σ := σ)) where
  pure holds := fun _ _ _ s => .value s holds
  fail _ e := fun _ _ _ s => .failed e s
  bind := lastsUpTo_bind
  size := fun _ _ fuller s => .value s fuller.size.symm
  word32 := fun _ _ _ _ => .value _ rfl
  word64 := fun _ _ _ _ => .value _ rfl
  byteRun _ := fun _ _ _ _ => .value _ rfl
  below32 _ := fun _ _ fuller s => firstAccepted_continued _ _ fuller.fuel s
  below64 _ := fun _ _ fuller s => firstAccepted_continued _ _ fuller.fuel s
  belowExact _ := fun _ _ fuller s => firstAccepted_continued _ _ fuller.fuel s

theorem lasts_payload (t : BoundType) : (payload t : Generator σ Payload).Lasts := by
  have paired : LastsUpTo (Payload.Paired Eq) (payload t : Generator σ Payload) (payload t) :=
    congruence_lastsUpTo.payload rfl fun c _ => lasts_ofType (t.child c)
  intro c c' fuller s
  exact (paired c c' fuller s).imp fun _ _ => Payload.eq_of_paired

end Generator

/-! ## Values of a type -/

/-- More fuel changes no draw of an override that has ended. -/
def Overrides.Last (table : Overrides σ) : Prop :=
  ∀ n g, table.get? n = some g → g.Lasts

theorem Overrides.last_empty : (∅ : Overrides σ).Last := by
  intro n g found
  rw [NameMap.get?_empty] at found
  cases found

variable [RandomSource σ]

/-- **More fuel changes no draw of a value that has ended**, under tables of which this
holds. -/
theorem drawValue_continued {table : Overrides σ} (last : table.Last) {fuel fuel' : Nat}
    (le : fuel ≤ fuel') (hops : Nat) (skip : Option Name) (t : BoundType) (size : Nat) (s : σ) :
    (drawValue (some table) fuel hops skip t size s).Continued Eq
      (drawValue (some table) fuel' hops skip t size s) := by
  induction fuel generalizing fuel' hops skip t size s with
  | zero => exact .unfinished _
  | succ fuel ih =>
      obtain ⟨fuel', rfl⟩ : ∃ k, fuel' = k + 1 := ⟨fuel' - 1, by omega⟩
      have less : fuel ≤ fuel' := Nat.le_of_succ_le_succ le
      have fuller : ∀ size, Context.Fuller (Context.start fuel size (some table))
          (Context.start fuel' size (some table)) :=
        fun _ => ⟨less, rfl, fun skip t size s => ih less 0 skip t size s⟩
      cases plain : overrideOf (some table) skip t with
      | some g =>
          rw [drawValue_override plain, drawValue_override plain]
          obtain ⟨n, -, entry⟩ := exists_get?_of_overrideOf plain
          exact last n g entry _ _ (fuller _) s
      | none =>
          cases t.way hops with
          | direct bears =>
              rw [drawValue_direct plain bears, drawValue_direct plain bears]
              exact (Generator.lasts_payload t _ _ (fuller size) s).map _
          | @newtype n u form =>
              rw [drawValue_newtype plain form, drawValue_newtype plain form]
              exact (ih less hops skip (t.child u) size s).map _
          | undefined form found =>
              rw [drawValue_undefined plain form found, drawValue_undefined plain form found]
              exact .failed _ s
          | cycle form found many =>
              rw [drawValue_cycle plain form found many, drawValue_cycle plain form found many]
              exact .failed _ s
          | @definition n target form found few =>
              rw [drawValue_reference plain form found few,
                drawValue_reference plain form found few]
              exact ih less (hops + 1) skip (t.child target) size s

/-- A value that has been drawn is drawn with more fuel too. -/
theorem drawn_of_le {table : Overrides σ} (last : table.Last) {t : BoundType} {fuel size : Nat}
    {s s' : σ} {v : Value}
    (drawn : (ValueGenerator.mk table t).generator (Context.start fuel size none) s =
      .value v s')
    (ctx : Context σ) (same : ctx.size = size) (le : fuel ≤ ctx.fuel) :
    (ValueGenerator.mk table t).generator ctx s = .value v s' := by
  have continued := drawValue_continued last le 0 none t size s
  change drawValue (some table) fuel 0 none t size s = _ at drawn
  rw [drawn] at continued
  rw [← continued.value_eq, ← same]
  rfl

end SchemaData
