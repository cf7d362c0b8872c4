import SchemaData.Proofs.Ends
import SchemaData.Proofs.Keyed
import SchemaData.Proofs.SourceMap

/-!
# SchemaData.Proofs.Budget -- the bounds of a draw hold at every depth

A draw without overrides hands its budget on as it is, through newtypes, references and
everything that holds values.  So whatever is inside a drawn value was itself drawn with the
budget of the whole (`Drawn.nested`), and for one node the bounds are known
(`Generator.ensures_payload`).  The first step of the argument is that the payload of a drawn
value was drawn for one node, however long the chain to it (`Drawn.exists_payload`).

Days and times are made from drawn numbers by functions that may refuse.  They do not: the
number of microseconds of a day is split into two words of 32 bits without loss, and these are
the time of that number (`timeOf_of_lt`).  To say that the numbers belong to this draw, the
source is replaced by one that knows from where it came (`Onward`), which changes nothing in
the draw (`Onward.drawn_of_drawn`).
-/

namespace SchemaData

set_option autoImplicit false

open RandomSource

variable {σ α : Type} [RandomSource σ]

/-! ## Sources that know from where they came -/

/-- A state to which a source can come from `s`. -/
structure Onward (s : σ) where
  state : σ
  later : Later s state

namespace Onward

variable {s : σ}

instance : RandomSource (Onward s) where
  next32 w := ((next32 w.state).1, ⟨_, w.later.tail (.word32 w.state)⟩)
  next64 w := ((next64 w.state).1, ⟨_, w.later.tail (.word64 w.state)⟩)
  nextBytes n w := ((nextBytes n w.state).1, ⟨_, w.later.tail (.byteRun n w.state)⟩)
  nextBytes_length n w := nextBytes_length n w.state

theorem sourceMap : SourceMap (state : Onward s → σ) where
  next32 _ := rfl
  next64 _ := rfl
  nextBytes _ _ := rfl

theorem tables : Overrides.Commute (state : Onward s → σ) ∅ ∅ :=
  fun n => .inl ⟨NameMap.get?_empty n, NameMap.get?_empty n⟩

theorem alike (fuel size : Nat) : Context.Alike (state : Onward s → σ)
    (Context.start fuel size (some ∅)) (Context.start fuel size (some ∅)) :=
  ⟨rfl, rfl, drawValue_map sourceMap tables fuel 0⟩

end Onward

/-- Without overrides, `g` gives `a` with the budget `size`, from a state to which the source
can come from `s`. -/
def Generator.DrawnAfter (size : Nat) (s : σ) (g : Generator σ α) (a : α) : Prop :=
  ∃ fuel s₁ s₂, Later s s₁ ∧ g (Context.start fuel size (some ∅)) s₁ = .value a s₂

theorem Generator.Commutes.drawnAfter {s : σ} {g : Generator (Onward s) α} {g' : Generator σ α}
    (commutes : Commutes Onward.state g g') {fuel size : Nat} {a : α} {w w' : Onward s}
    (drawn : g (Context.start fuel size (some ∅)) w = .value a w') : g'.DrawnAfter size s a := by
  refine ⟨fuel, w.state, w'.state, w.later, ?_⟩
  rw [commutes _ _ (Onward.alike fuel size), drawn, Outcome.mapSource]

/-! ## Values inside a drawn value -/

/-- A value that is drawn without overrides with the budget `size`. -/
def Drawn (σ : Type) [RandomSource σ] (size : Nat) (v : Value) : Prop :=
  ∃ fuel hops skip t, ∃ s s' : σ, drawValue (some ∅) fuel hops skip t size s = .value v s'

variable {size : Nat} {v : Value}

/-- A source draws the same when it knows from where it came. -/
theorem Onward.drawn_of_drawn {fuel hops : Nat} {skip : Option Name} {t : BoundType} {s s' : σ}
    (drawn : drawValue (some ∅) fuel hops skip t size s = .value v s') :
    Drawn (Onward s) size v := by
  have same := drawValue_map (Onward.sourceMap (s := s)) Onward.tables fuel hops skip t size
    ⟨s, .refl⟩
  rw [drawn] at same
  obtain ⟨w, onward, -⟩ := Outcome.mapSource_eq_value_iff.1 same.symm
  exact ⟨fuel, hops, skip, t, _, w, onward⟩

/-- Newtypes and references pass a payload on as it was drawn for the node behind them. -/
theorem Drawn.exists_payload (drawn : Drawn σ size v) :
    ∃ fuel node, ∃ s s' : σ, node.expr.isIndirect = false ∧
      Generator.payload node (Context.start fuel size (some ∅)) s = .value v.payload s' := by
  obtain ⟨fuel, hops, skip, ⟨home, e⟩, s, s', drawn⟩ := drawn
  -- One unit of fuel for each node of the chain; the budget and the source stay as they are.
  induction fuel generalizing hops e v s with
  | zero => cases drawn
  | succ fuel ih =>
      have plain := overrideOf_empty (σ := σ) skip ⟨home, e⟩
      cases (BoundType.mk home e).way hops with
      | direct bears =>
          rw [drawValue_direct plain bears, Outcome.map_eq_value_iff] at drawn
          obtain ⟨p, made, rfl⟩ := drawn
          exact ⟨fuel, ⟨home, e⟩, s, s', bears, made⟩
      | @newtype n u form =>
          rw [drawValue_newtype plain form, Outcome.map_eq_value_iff] at drawn
          obtain ⟨w, below, rfl⟩ := drawn
          exact ih (v := w) hops u s below
      | undefined form found =>
          rw [drawValue_undefined plain form found] at drawn
          cases drawn
      | cycle form found many =>
          rw [drawValue_cycle plain form found many] at drawn
          cases drawn
      | @definition n target form found few =>
          rw [drawValue_reference plain form found few] at drawn
          exact ih (hops + 1) target s drawn

/-- The payload of one node is bounded, and what it holds is drawn with the same budget. -/
theorem bounded_of_payload {fuel : Nat} {node : BoundType} {p : Payload} {s s' : σ}
    (direct : node.expr.isIndirect = false)
    (made : Generator.payload node (Context.start fuel size (some ∅)) s = .value p s') :
    p.Bounded size ∧ Built (fun _ => Drawn σ size) node.expr p := by
  have draws : ∀ c ∈ node.expr.children, (Generator.ofType (node.child c)).Ensures
      (Context.start fuel size (some ∅) : Context σ) (Drawn σ size) fun _ => True :=
    fun c _ => Generator.ensures_of_outcomes
      (fun s v s' drawn => ⟨fuel, 0, none, node.child c, s, s', drawn⟩) fun _ _ _ _ => trivial
  have meets := Generator.ensures_payload direct draws (fun _ _ => trivial) s
  rw [made] at meets
  exact meets

theorem Drawn.bounded (drawn : Drawn σ size v) : v.payload.Bounded size := by
  obtain ⟨fuel, node, s, s', direct, made⟩ := drawn.exists_payload
  exact (bounded_of_payload direct made).1

theorem Drawn.items (drawn : Drawn σ size v) : ∀ w ∈ v.payload.items, Drawn σ size w := by
  obtain ⟨fuel, node, s, s', direct, made⟩ := drawn.exists_payload
  intro w member
  obtain ⟨c, -, inside⟩ := (bounded_of_payload direct made).2.exists_child w member
  exact inside

/-- **Everything inside a drawn value is drawn with the same budget.** -/
theorem Drawn.nested {w : Value} (drawn : Drawn σ size v) (inside : v.payload.Nested w) :
    Drawn σ size w := by
  have items := drawn.items
  -- The induction goes down from any payload whose items are drawn.
  generalize v.payload = p at items inside
  clear drawn
  induction inside with
  | direct member => exact items _ member
  | deeper member _ ih => exact ih (items _ member).items

/-! ## Days and times -/

namespace Generator

variable {ctx : Context σ} {s s' : σ}

/-- The number of a drawn day is taken: the first day does not stand in for it. -/
structure DrawsDay (ctx : Context σ) (s : σ) (day : Int) (s' : σ) : Prop where
  drawn : date ctx s = .value day s'
  taken : ∃ i, below32 dayCount ctx s = .value i s' ∧ dayOf? (firstDay + i) = some day

/-- A number of microseconds is a time of a day: neither part of it loses anything in a word of
32 bits, and the parts are taken. -/
structure TimeOf (micros nanos : Nat) : Prop where
  inRange : micros ≤ 86399999999
  seconds : (wholeSeconds micros).toNat = micros / 1000000
  behind : (nanosBehind micros).toNat = micros % 1000000 * 1000
  taken : timeOfDay? (wholeSeconds micros) (nanosBehind micros) = some nanos
  whole : nanos = 1000 * micros

/-- The time of a drawn instant is that of a number of microseconds, drawn behind its day. -/
structure DrawsInstant (ctx : Context σ) (s : σ) (t : Instant) (s' : σ) : Prop where
  drawn : datetime ctx s = .value t s'
  parts : ∃ s₁ micros, DrawsDay ctx s t.day s₁ ∧
    below64 microsOfDay ctx s₁ = .value micros s' ∧ TimeOf micros t.nanos

theorem drawsDay_of_date {day : Int} (drawn : date ctx s = .value day s') :
    DrawsDay ctx s day s' := by
  refine ⟨drawn, ?_⟩
  obtain ⟨i, s₁, number, same⟩ := bind_eq_value_iff.1 drawn
  cases same
  have inRange : (below32 dayCount ctx s).Meets (· < dayCount) fun _ => False :=
    ensures_below32 (by decide) s
  rw [number] at inRange
  exact ⟨i, number, by rw [dayOf?_of_lt inRange, Option.getD_some]⟩

theorem timeOf_of_lt {micros : Nat} (inRange : micros < microsOfDay) :
    TimeOf micros (1000 * micros) where
  inRange := Nat.le_of_lt_succ inRange
  seconds := toNat_wholeSeconds inRange
  behind := toNat_nanosBehind micros
  taken := timeOfDay?_of_lt inRange
  whole := rfl

theorem drawsInstant_of_datetime {t : Instant} (drawn : datetime ctx s = .value t s') :
    DrawsInstant ctx s t s' := by
  refine ⟨drawn, ?_⟩
  obtain ⟨day, s₁, first, rest⟩ := bind_eq_value_iff.1 drawn
  obtain ⟨micros, s₂, number, same⟩ := bind_eq_value_iff.1 rest
  cases same
  have inRange : (below64 microsOfDay ctx s₁).Meets (· < microsOfDay) fun _ => False :=
    ensures_below64 (by decide) s₁
  rw [number] at inRange
  rw [timeOfDay?_of_lt inRange, Option.getD_some]
  exact ⟨s₁, micros, drawsDay_of_date first, number, timeOf_of_lt inRange⟩

/-- A datum that is the payload of a node was drawn as a datum of its kind. -/
theorem scalar_of_payload {fuel size : Nat} {node : BoundType} {x : Scalar}
    (direct : node.expr.isIndirect = false)
    (made : payload node (Context.start fuel size (some ∅)) s = .value (.scalar x) s') :
    scalar x.kind (Context.start fuel size (some ∅)) s = .value x s' := by
  obtain ⟨-, built⟩ := bounded_of_payload direct made
  obtain ⟨home, e⟩ := node
  cases built
  obtain ⟨y, s₁, drawn, same⟩ := bind_eq_value_iff.1 made
  cases same
  exact drawn

end Generator

open Generator

/-- A day or a time is drawn with the budget `size`, and after `s`. -/
def Scalar.TakenAfter (size : Nat) (s : σ) : Scalar → Prop
  | .date day => ∃ fuel s₁ s₂, Later s s₁ ∧
      DrawsDay (Context.start fuel size (some ∅)) s₁ day s₂
  | .datetime t => ∃ fuel s₁ s₂, Later s s₁ ∧
      DrawsInstant (Context.start fuel size (some ∅)) s₁ t s₂
  | _ => True

/-- In a source that knows from where it came, data are taken after that. -/
theorem Drawn.takenAfter {s : σ} {x : Scalar} (drawn : Drawn (Onward s) size v)
    (datum : v.payload = .scalar x) : x.TakenAfter size s := by
  obtain ⟨fuel, node, w, w', direct, made⟩ := drawn.exists_payload
  rw [datum] at made
  have commutes : Commutes Onward.state (scalar x.kind : Generator (Onward s) Scalar)
      (scalar x.kind) :=
    commutesUpTo_eq_iff.1 ((congruence_commutesUpTo Onward.sourceMap).scalar x.kind)
  obtain ⟨fuel, s₁, s₂, later, drawn⟩ := commutes.drawnAfter (scalar_of_payload direct made)
  cases x with
  | date day =>
      obtain ⟨_, _, drawn, same⟩ := bind_eq_value_iff.1 drawn
      cases same
      exact ⟨fuel, s₁, s₂, later, drawsDay_of_date drawn⟩
  | datetime t =>
      obtain ⟨_, _, drawn, same⟩ := bind_eq_value_iff.1 drawn
      cases same
      exact ⟨fuel, s₁, s₂, later, drawsInstant_of_datetime drawn⟩
  | _ => trivial

/-- **The bounds of a draw hold at every depth.**  A value that is drawn without overrides, and
every value inside it, keeps to the budget of the draw, whatever newtypes, references and
containers lie between: no container is longer, no text, key or run of bytes, and every day can
be represented.  Its days and times are those of numbers that were drawn in the course of the
draw, a time that of a number of microseconds, and none is one that stands in for another. -/
theorem drawn_within_budget (t : BoundType) (ctx : Context σ) (s s' : σ) (v : Value)
    (drawn : (ValueGenerator.plain t).generator ctx s = .value v s') :
    ∀ w, w = v ∨ v.payload.Nested w →
      w.payload.Bounded ctx.size ∧
        ∀ x, w.payload = .scalar x → x.TakenAfter ctx.size s := by
  have onward : Drawn (Onward s) ctx.size v :=
    Onward.drawn_of_drawn (drawn : drawValue (some ∅) ctx.fuel 0 none t ctx.size s = .value v s')
  rintro w (rfl | inside)
  · exact ⟨onward.bounded, fun x => onward.takenAfter⟩
  · have within := onward.nested inside
    exact ⟨within.bounded, fun x => within.takenAfter⟩

/-- A time that may be missing, behind a newtype and a reference. -/
def Example.stamp : BoundType :=
  ⟨⟨1, ⟨.ofList [(⟨"t", "Stamp", by decide⟩,
      .newtype ⟨"t", "Stamp", by decide⟩ (.optional (.primitive .datetime)))]⟩⟩,
    .reference ⟨"t", "Stamp", by decide⟩⟩

/-- Less than eleven seconds before the end of a day. -/
def Example.dusk : Instant := ⟨85785925, 86389453125000⟩

/-- The stamp of that time. -/
def Example.duskStamp : Value :=
  ⟨Example.stamp.child (.newtype ⟨"t", "Stamp", by decide⟩ (.optional (.primitive .datetime))),
    .optional (some ⟨Example.stamp.child (.primitive .datetime), .scalar (.datetime dusk)⟩)⟩

/-- The words for the choice, the day and the microsecond. -/
def Example.stampWords : Scripted := Scripted.start [0xCCCCCCD, 0xF2AF78F2, 0xFFF8000000000000] 0

/-- The numbers of the day and of the microsecond are read off their words apart from the rest
of the draw, since evaluation as a whole does not get past ranges of their size. -/
theorem Example.gives_duskStamp :
    (ofType Example.stamp).Gives 1 Example.stampWords Example.duskStamp ⟨[], 0, 3⟩ := by
  have day : (below32 dayCount : Generator Scripted Nat).Gives 1
      ⟨[0xF2AF78F2, 0xFFF8000000000000], 0, 1⟩ 181532054 ⟨[0xFFF8000000000000], 0, 2⟩ :=
    gives_of_accepted (fun _ _ => rfl) (by decide +kernel)
  have micros : (below64 microsOfDay : Generator Scripted Nat).Gives 1
      ⟨[0xFFF8000000000000], 0, 2⟩ 86389453125 ⟨[], 0, 3⟩ :=
    gives_of_accepted (fun _ _ => rfl) (by decide +kernel)
  have time : (datetime : Generator Scripted Instant).Gives 1
      ⟨[0xF2AF78F2, 0xFFF8000000000000], 0, 1⟩ Example.dusk ⟨[], 0, 3⟩ :=
    gives_bind (gives_bind day (gives_pure _ _)) (gives_bind micros (gives_pure _ _))
  have present : (along 0 none (Example.stamp.child (.primitive .datetime)) :
      Generator Scripted Value).Gives 1 ⟨[0xF2AF78F2, 0xFFF8000000000000], 0, 1⟩
        ⟨Example.stamp.child (.primitive .datetime), .scalar (.datetime Example.dusk)⟩
        ⟨[], 0, 3⟩ :=
    gives_along_direct rfl (gives_bind (gives_bind time (gives_pure _ _)) (gives_pure _ _))
  have choice : (weightedIndex optionalWeights : Generator Scripted Nat).Gives 1
      Example.stampWords 1 ⟨[0xF2AF78F2, 0xFFF8000000000000], 0, 1⟩ :=
    gives_bind (gives_of_accepted (a := 1) (fun _ _ => rfl) (by decide +kernel)) (gives_pure _ _)
  have whole : (along 1 none (Example.stamp.child (.optional (.primitive .datetime))) :
      Generator Scripted Value).Gives 1 Example.stampWords
        ⟨Example.stamp.child (.optional (.primitive .datetime)), Example.duskStamp.payload⟩
        ⟨[], 0, 3⟩ :=
    gives_along_direct rfl
      (gives_bind (gives_bind choice (gives_bind present (gives_pure _ _))) (gives_pure _ _))
  have named : (along 1 none Example.duskStamp.type : Generator Scripted Value).Gives 1
      Example.stampWords Example.duskStamp ⟨[], 0, 3⟩ :=
    gives_along_newtype (t := Example.duskStamp.type) rfl whole
  have behind : (along 0 none Example.stamp : Generator Scripted Value).Gives 1
      Example.stampWords Example.duskStamp ⟨[], 0, 3⟩ :=
    gives_along_reference rfl rfl (by decide) named
  exact behind

/-- A time inside an optional, behind the newtype and the reference. -/
theorem drawn_within_budget_stamp :
    ∃ fuel, (ValueGenerator.plain Example.stamp).generator (Context.start fuel 1 none)
          Example.stampWords = .value Example.duskStamp ⟨[], 0, 3⟩ ∧
        Example.duskStamp.payload.Bounded 1 ∧
        (Scalar.datetime Example.dusk).Bounded 1 ∧
        (Scalar.datetime Example.dusk).TakenAfter 1 Example.stampWords := by
  obtain ⟨fuel, draws⟩ := gives_plain Example.gives_duskStamp
  have drawn := draws (Context.start fuel 1 none) rfl (Nat.le_refl fuel)
  have all := drawn_within_budget _ _ _ _ _ drawn
  have inside := all _ (.inr (.direct List.mem_cons_self))
  exact ⟨fuel, drawn, (all _ (.inl rfl)).1, inside.1, inside.2 _ rfl⟩

end SchemaData
