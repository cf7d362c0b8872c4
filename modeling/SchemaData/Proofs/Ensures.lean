import Mathlib.Data.List.Basic
import SchemaData.Generator.Values
import SchemaData.Proofs.Inside

/-!
# SchemaData.Proofs.Ensures -- what every draw of a generator satisfies

`g.Ensures ctx Q E` says that a draw of `g` in the context `ctx` can only give values
that satisfy `Q` and fail with errors that satisfy `E`, whatever the source.  A draw
that is unfinished promises nothing, so this is partial correctness.

There is one rule for each combinator.  The two that the others are made from are
`ensures_bind` and `meets_firstAccepted`; `ensures_vectorOf` is the induction that
repetition needs.
-/

namespace SchemaData

set_option autoImplicit false

variable {σ α β : Type}

/-- The value of an outcome satisfies `Q`, its failure `E`. -/
def Outcome.Meets (Q : α → Prop) (E : DrawError → Prop) : Outcome σ α → Prop
  | .value a _ => Q a
  | .failed e _ => E e
  | .unfinished => True

theorem Outcome.Meets.imp {Q R : α → Prop} {E F : DrawError → Prop} {o : Outcome σ α}
    (meets : o.Meets Q E) (values : ∀ a, Q a → R a) (errors : ∀ e, E e → F e) : o.Meets R F := by
  cases o with
  | value a s => exact values a meets
  | failed e s => exact errors e meets
  | unfinished => trivial

theorem Outcome.meets_map {Q : β → Prop} {E : DrawError → Prop} {o : Outcome σ α} {f : α → β}
    (meets : o.Meets (fun a => Q (f a)) E) : (o.map f).Meets Q E := by
  cases o <;> exact meets

namespace Generator

/-- Every draw of the generator in the context meets the two conditions. -/
def Ensures (ctx : Context σ) (g : Generator σ α) (Q : α → Prop) (E : DrawError → Prop) : Prop :=
  ∀ s, (g ctx s).Meets Q E

variable {ctx : Context σ} {E : DrawError → Prop}

theorem Ensures.imp {g : Generator σ α} {Q R : α → Prop} (ensures : g.Ensures ctx Q E)
    (values : ∀ a, Q a → R a) : g.Ensures ctx R E :=
  fun s => (ensures s).imp values fun _ => id

/-- What all values and all failures of a generator satisfy, it ensures. -/
theorem ensures_of_outcomes {g : Generator σ α} {Q : α → Prop}
    (values : ∀ s a s', g ctx s = .value a s' → Q a)
    (errors : ∀ s e s', g ctx s = .failed e s' → E e) : g.Ensures ctx Q E := by
  intro s
  cases ended : g ctx s with
  | value a s' => exact values s a s' ended
  | failed e s' => exact errors s e s' ended
  | unfinished => trivial

theorem ensures_pure {a : α} {Q : α → Prop} (holds : Q a) :
    (pure a : Generator σ α).Ensures ctx Q E :=
  fun _ => holds

theorem ensures_fail {e : DrawError} {Q : α → Prop} (holds : E e) :
    (fail e : Generator σ α).Ensures ctx Q E :=
  fun _ => holds

theorem ensures_bind {g : Generator σ α} {f : α → Generator σ β} {Q : α → Prop} {R : β → Prop}
    (first : g.Ensures ctx Q E) (next : ∀ a, Q a → (f a).Ensures ctx R E) :
    (g >>= f).Ensures ctx R E := by
  intro s
  have meets := first s
  show ((g ctx s).andThen fun a s' => f a ctx s').Meets R E
  cases drawn : g ctx s with
  | value a s' =>
      rw [drawn] at meets
      exact next a meets s'
  | failed e s' =>
      rw [drawn] at meets
      exact meets
  | unfinished => trivial

/-- A generator followed by a function of its value. -/
theorem ensures_map {g : Generator σ α} {f : α → β} {R : β → Prop}
    (ensures : g.Ensures ctx (fun a => R (f a)) E) :
    (g >>= fun a => pure (f a)).Ensures ctx R E :=
  ensures_bind ensures fun _ holds => ensures_pure holds

/-! ## Words -/

theorem meets_firstAccepted {ω : Type} {next : σ → ω × σ} {accept : ω → Option α} {Q : α → Prop}
    (accepted : ∀ w a, accept w = some a → Q a) (n : Nat) (s : σ) :
    (firstAccepted next accept n s).Meets Q E := by
  induction n generalizing s with
  | zero => trivial
  | succ n ih =>
      rw [firstAccepted]
      cases answer : accept (next s).1 with
      | some a => exact accepted _ a answer
      | none => exact ih (next s).2

variable [RandomSource σ]

theorem ensures_below32 {range : Nat} (positive : 0 < range) :
    (below32 range : Generator σ Nat).Ensures ctx (· < range) E :=
  meets_firstAccepted (fun w _ accepted => Uniform.pick?_lt w.toNat_lt positive accepted) _

theorem ensures_below64 {range : Nat} (positive : 0 < range) :
    (below64 range : Generator σ Nat).Ensures ctx (· < range) E :=
  meets_firstAccepted (fun w _ accepted => Uniform.pick?_lt w.toNat_lt positive accepted) _

theorem ensures_belowExact {range : Nat} (positive : 0 < range) :
    (belowExact range : Generator σ Nat).Ensures ctx (· < range) E :=
  meets_firstAccepted (fun w _ accepted => Uniform.pickExact?_lt w.toNat_lt positive accepted) _

theorem ensures_belowIndex {range : Nat} (positive : 0 < range) :
    (belowIndex range : Generator σ Nat).Ensures ctx (· < range) E := by
  unfold belowIndex
  split
  · exact ensures_below32 positive
  · exact ensures_below64 positive

theorem ensures_byteRun (n : Nat) :
    (byteRun n : Generator σ (List UInt8)).Ensures ctx (·.length = n) E :=
  RandomSource.nextBytes_length n

/-! ## Repetition -/

omit [RandomSource σ] in
theorem ensures_vectorOf {g : Generator σ α} {Q : α → Prop} (each : g.Ensures ctx Q E) (n : Nat) :
    (vectorOf n g).Ensures ctx (fun as => as.length = n ∧ ∀ a ∈ as, Q a) E := by
  induction n with
  | zero => exact ensures_pure ⟨rfl, nofun⟩
  | succ n ih =>
      refine ensures_bind each fun a holds => ensures_map (ih.imp ?_)
      rintro as ⟨rfl, all⟩
      exact ⟨rfl, List.forall_mem_cons.2 ⟨holds, all⟩⟩

theorem ensures_length : (length : Generator σ Nat).Ensures ctx (· ≤ ctx.size) E :=
  fun s => (ensures_below64 (Nat.succ_pos ctx.size) s).imp (fun _ => Nat.le_of_lt_succ) fun _ => id

theorem ensures_listOf {g : Generator σ α} {Q : α → Prop} (each : g.Ensures ctx Q E) :
    (listOf g).Ensures ctx (fun as => as.length ≤ ctx.size ∧ ∀ a ∈ as, Q a) E := by
  refine ensures_bind ensures_length fun n le => (ensures_vectorOf each n).imp ?_
  rintro as ⟨rfl, all⟩
  exact ⟨le, all⟩

/-! ## Choice -/

theorem ensures_chooseFrom {what : String} {items : List α}
    (empty : items = [] → E (.emptyChoice what)) :
    (chooseFrom what items : Generator σ α).Ensures ctx (· ∈ items) E := by
  have chosen : (choose items : Generator σ (Option α)).Ensures ctx
      (fun choice => choice.elim (items = []) (· ∈ items)) E := by
    cases items with
    | nil => exact ensures_pure rfl
    | cons a items =>
        refine ensures_map ((ensures_belowIndex (Nat.succ_pos _)).imp ?_)
        intro i inRange
        rw [List.getElem?_eq_getElem inRange]
        exact List.getElem_mem inRange
  refine ensures_bind chosen fun choice holds => ?_
  cases choice with
  | some a => exact ensures_pure holds
  | none => exact ensures_fail (empty holds)

end Generator

end SchemaData
