import SchemaData.Generator.Values
import SchemaData.Proofs.Paired

/-!
# SchemaData.Proofs.Alongside -- two generators side by side

What two generators have in common is a relation of them, `O R g g'`, that depends on the
relation `R` of the values which they give.  `Generator.Congruence O` says that the relation
goes through the words, the choice of a budget and the sequence of two draws; nothing else is
asked of it.  It then goes through everything that is made from these:

* `Congruence.scalar`: native data are drawn alike, and are the same.
* `Congruence.payload`: the payloads of one node are drawn alike if the values of its children
  are, and they are paired then (`Payload.Paired`).

What the two sides may differ in, their sources, contexts, or modules, is for the relation to
say.
-/

namespace SchemaData.Generator

set_option autoImplicit false

variable {τ σ : Type} [RandomSource τ] [RandomSource σ]

/-- A relation of generators that goes through the combinators which others are made from. -/
structure Congruence
    (O : ∀ {α β : Type}, (α → β → Prop) → Generator τ α → Generator σ β → Prop) : Prop where
  pure {α β : Type} {R : α → β → Prop} {a : α} {b : β} :
    R a b → O R (Pure.pure a) (Pure.pure b)
  fail {α β : Type} (R : α → β → Prop) (e : DrawError) : O R (Generator.fail e) (Generator.fail e)
  bind {α β γ δ : Type} {R : α → β → Prop} {Q : γ → δ → Prop} {g : Generator τ α}
    {g' : Generator σ β} {f : α → Generator τ γ} {f' : β → Generator σ δ} :
    O R g g' → (∀ a b, R a b → O Q (f a) (f' b)) → O Q (g >>= f) (g' >>= f')
  size : O Eq Generator.size Generator.size
  word32 : O Eq Generator.word32 Generator.word32
  word64 : O Eq Generator.word64 Generator.word64
  byteRun (n : Nat) : O Eq (Generator.byteRun n) (Generator.byteRun n)
  below32 (range : Nat) : O Eq (Generator.below32 range) (Generator.below32 range)
  below64 (range : Nat) : O Eq (Generator.below64 range) (Generator.below64 range)
  belowExact (range : Nat) : O Eq (Generator.belowExact range) (Generator.belowExact range)

namespace Congruence

variable {O : ∀ {α β : Type}, (α → β → Prop) → Generator τ α → Generator σ β → Prop}
  (congruence : Congruence O) {α β γ δ : Type} {R : α → β → Prop} {Q : γ → δ → Prop}

include congruence

/-- Two generators followed by functions of their values. -/
theorem map {g : Generator τ α} {g' : Generator σ β} {f : α → γ} {f' : β → δ}
    (related : O R g g') (values : ∀ a b, R a b → Q (f a) (f' b)) :
    O Q (g >>= fun a => Pure.pure (f a)) (g' >>= fun b => Pure.pure (f' b)) :=
  congruence.bind related fun a b holds => congruence.pure (values a b holds)

/-- Two generators of one value followed by a function of it. -/
theorem mapSame {g : Generator τ α} {g' : Generator σ α} (related : O Eq g g') (f : α → γ) :
    O Eq (g >>= fun a => Pure.pure (f a)) (g' >>= fun a => Pure.pure (f a)) :=
  congruence.map related fun _ _ same => congrArg f same

/-- Two generators of one value followed by generators that depend on it. -/
theorem bindSame {g : Generator τ α} {g' : Generator σ α} {f : α → Generator τ γ}
    {f' : α → Generator σ δ} (related : O Eq g g') (next : ∀ a, O Q (f a) (f' a)) :
    O Q (g >>= f) (g' >>= f') :=
  congruence.bind related fun a _ same => same ▸ next a

/-! ## Repetition and choice -/

theorem vectorOf {g : Generator τ α} {g' : Generator σ β} (each : O R g g') (n : Nat) :
    O (List.Forall₂ R) (Generator.vectorOf n g) (Generator.vectorOf n g') := by
  induction n with
  | zero => exact congruence.pure .nil
  | succ n ih =>
      exact congruence.bind each fun a b holds =>
        congruence.map ih fun _ _ rest => .cons holds rest

theorem length : O Eq Generator.length Generator.length :=
  congruence.bindSame congruence.size fun n => congruence.below64 (n + 1)

theorem listOf {g : Generator τ α} {g' : Generator σ β} (each : O R g g') :
    O (List.Forall₂ R) (Generator.listOf g) (Generator.listOf g') :=
  congruence.bindSame congruence.length fun n => congruence.vectorOf each n

theorem belowIndex (range : Nat) :
    O Eq (Generator.belowIndex range) (Generator.belowIndex range) := by
  unfold Generator.belowIndex
  split
  · exact congruence.below32 range
  · exact congruence.below64 range

/-- The same item is chosen, if there is one. -/
theorem chooseFrom (what : String) (items : List α) :
    O (fun a b => a ∈ items ∧ a = b) (Generator.chooseFrom what items)
      (Generator.chooseFrom what items) := by
  have chosen : O (fun o o' => (∀ a ∈ o, a ∈ items) ∧ o = o') (choose items) (choose items) := by
    cases items with
    | nil => exact congruence.pure ⟨nofun, rfl⟩
    | cons a items =>
        refine congruence.map (congruence.belowIndex _) ?_
        rintro i _ rfl
        exact ⟨fun b found => List.mem_of_getElem? found, rfl⟩
  refine congruence.bind chosen ?_
  rintro choice _ ⟨members, rfl⟩
  cases choice with
  | some a => exact congruence.pure ⟨members a rfl, rfl⟩
  | none => exact congruence.fail _ _

/-! ## Native data -/

theorem string : O Eq Generator.string Generator.string := by
  have chars : O (List.Forall₂ Eq) (Generator.listOf char) (Generator.listOf char) :=
    congruence.listOf (congruence.mapSame (congruence.belowExact _) _)
  exact congruence.map chars fun _ _ same => congrArg _ (List.forall₂_eq_eq_eq ▸ same)

theorem date : O Eq Generator.date Generator.date :=
  congruence.mapSame (congruence.below32 _) _

theorem datetime : O Eq Generator.datetime Generator.datetime :=
  congruence.bindSame congruence.date fun _ => congruence.mapSame (congruence.below64 _) _

theorem scalar (p : Primitive) : O Eq (Generator.scalar p) (Generator.scalar p) := by
  cases p with
  | bool => exact congruence.mapSame (congruence.mapSame congruence.word32 _) _
  | bytes =>
      exact congruence.mapSame (congruence.bindSame congruence.length congruence.byteRun) _
  | int32 => exact congruence.mapSame (congruence.mapSame congruence.word32 _) _
  | int64 => exact congruence.mapSame (congruence.mapSame congruence.word64 _) _
  | float32 =>
      exact congruence.mapSame (congruence.bindSame congruence.size fun _ =>
        congruence.mapSame congruence.word32 _) _
  | float64 =>
      exact congruence.mapSame (congruence.bindSame congruence.size fun _ =>
        congruence.mapSame congruence.word64 _) _
  | string => exact congruence.mapSame congruence.string _
  | date => exact congruence.mapSame congruence.date _
  | datetime => exact congruence.mapSame congruence.datetime _

/-! ## Payloads -/

variable {S : Value → Value → Prop} {t t' : BoundType}

theorem components {fields : List (Field TypeExpr)}
    (each : ∀ f ∈ fields, O S (ofType (t.child f.type)) (ofType (t'.child f.type))) :
    O (List.Forall₂ S) (Generator.components t fields) (Generator.components t' fields) := by
  induction fields with
  | nil => exact congruence.pure .nil
  | cons f fields ih =>
      obtain ⟨first, rest⟩ := List.forall_mem_cons.1 each
      exact congruence.bind first fun _ _ holds =>
        congruence.map (ih rest) fun _ _ others => .cons holds others

/-- The same keys are drawn, and a value for each of them. -/
theorem entries (item : O S (ofType t) (ofType t')) :
    O (List.Forall₂ (Payload.EntryPaired S)) (Generator.entries t) (Generator.entries t') := by
  have keys : O (List.Forall₂ Eq) (Generator.listOf Generator.string)
      (Generator.listOf Generator.string) := congruence.listOf congruence.string
  refine congruence.bind keys fun ks ks' same => ?_
  obtain rfl : ks = ks' := List.forall₂_eq_eq_eq ▸ same
  exact congruence.map (congruence.vectorOf item _) fun _ _ paired =>
    Payload.entryPaired_zip paired ks.eraseDups

theorem content (item : O S (ofType t) (ofType t')) :
    O (Option.Rel S) (Generator.content t) (Generator.content t') := by
  have index : O Eq (weightedIndex optionalWeights) (weightedIndex optionalWeights) :=
    congruence.mapSame (congruence.belowExact _) _
  refine congruence.bindSame index fun i => ?_
  split
  · exact congruence.pure .none
  · exact congruence.map item fun _ _ holds => .some holds

/-- **The payloads of one node are drawn alike.** -/
theorem payload (same : t'.expr = t.expr)
    (children : ∀ c ∈ t.expr.children, O S (ofType (t.child c)) (ofType (t'.child c))) :
    O (Payload.Paired S) (Generator.payload t) (Generator.payload t') := by
  obtain ⟨home, e⟩ := t
  obtain ⟨home', e'⟩ := t'
  obtain rfl : e' = e := same
  cases e' with
  | primitive p => exact congruence.map (congruence.scalar p) fun s _ same => same ▸ .scalar s
  | array item =>
      exact congruence.map (congruence.listOf (children item List.mem_cons_self))
        fun _ _ paired => .array paired
  | map item =>
      exact congruence.map (congruence.entries (children item List.mem_cons_self))
        fun _ _ paired => Payload.paired_ofEntries paired
  | optional item =>
      refine congruence.map (congruence.content (children item List.mem_cons_self)) ?_
      rintro _ _ (⟨holds⟩ | _)
      · exact .present holds
      · exact .absent
  | enum n symbols =>
      exact congruence.map (congruence.chooseFrom _ symbols) fun s _ chosen => chosen.2 ▸ .enum s
  | record n fields =>
      exact congruence.map (congruence.components fun f member =>
        children f.type (List.mem_map_of_mem member)) fun _ _ paired => .record paired
  | variant n cases =>
      refine congruence.bind (congruence.chooseFrom _ cases) ?_
      rintro c _ ⟨member, rfl⟩
      exact congruence.map (congruence.components fun f inside =>
        children f.type (TypeExpr.mem_children_of_parameter member inside)) fun _ _ paired =>
          .variant c.name paired
  | newtype n u | reference n => exact congruence.fail _ _

end Congruence

end SchemaData.Generator
