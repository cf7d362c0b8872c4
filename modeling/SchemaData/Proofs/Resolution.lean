import SchemaData.Proofs.Faults
import SchemaData.Proofs.Watch
import SchemaData.Random.Scripted

/-!
# SchemaData.Proofs.Resolution -- which node of a chain is drawn

A draw of a type goes along the chain of the type, and one node of it decides what is drawn:
the first one with an override, or else the one that bears a payload.  If the chain has
neither, the draw fails.  `DrawnAlong` says so of a generator, with the chain as
`Module.chain` gives it, whatever its length, and without the count of references.

* `drawValue_chain`: the nodes of a chain that have no override only change the label, to the
  first newtype among them (`BoundType.labelled`).  One node costs one unit of fuel.
* `exists_drawValue_stop`: the count of references does not stop a draw before the node that
  decides, because there are no more references before that node than there are definitions.
* `payload_congr`: a payload depends on the context only through the draws of its parts under
  all overrides; so a name that is passed over on the chain is not passed over below it.

`drawn_along_chain` puts them together for `Generator.ofType` and `Generator.structural`.
-/

namespace SchemaData

set_option autoImplicit false

variable {σ : Type}

theorem Outcome.map_map {α β γ : Type} (f : α → β) (g : β → γ) (o : Outcome σ α) :
    (o.map f).map g = o.map fun a => g (f a) := by
  cases o <;> rfl

/-! ## Nodes without an override -/

/-- No override is drawn in the place of a node: its name has none, or is passed over. -/
def TypeExpr.Plain (table : Overrides σ) (skip : Option Name) (e : TypeExpr) : Prop :=
  ∀ n, e.name? = some n → skip ≠ some n → table.get? n = none

section Overridden

variable {table : Overrides σ} {skip : Option Name} {t : BoundType}

theorem overrideOf_of_named {n : Name} (named : t.expr.name? = some n) (other : skip ≠ some n) :
    overrideOf (some table) skip t = table.get? n := by
  rw [← BoundType.name?] at named
  rw [overrideOf, named]
  exact if_neg other

theorem overrideOf_eq_none_iff :
    overrideOf (some table) skip t = none ↔ t.expr.Plain table skip := by
  constructor
  · intro plain n named other
    rwa [overrideOf_of_named named other] at plain
  · intro plain
    cases found : overrideOf (some table) skip t with
    | none => rfl
    | some g =>
        obtain ⟨n, named, stored⟩ := exists_get?_of_overrideOf found
        by_cases passed : skip = some n
        · rw [overrideOf, BoundType.name?, named] at found
          exact absurd found (by simp [bind, passed])
        · rw [plain n named passed] at stored
          cases stored

end Overridden

/-! ## The nodes that are passed -/

namespace Module

/-- The first `k` nodes of the chain of a node. -/
def links (m : Module) (k : Nat) (e : TypeExpr) : List TypeExpr :=
  (List.range k).filterMap fun i => m.chain i e

/-- The first newtype among the first `k` nodes of a chain. -/
def firstNewtype? (m : Module) (k : Nat) (e : TypeExpr) : Option TypeExpr :=
  (m.links k e).find? fun c => c.shape = .newtype

variable {m : Module} {k : Nat} {e c d : TypeExpr}

theorem links_succ (next : m.next? e = some c) (k : Nat) :
    m.links (k + 1) e = e :: m.links k c := by
  have behind : ∀ i, m.chain (i + 1) e = m.chain i c := fun i => by
    rw [chain, next, Option.bind_some]
  rw [links, List.range_succ_eq_map, List.filterMap_cons, chain, List.filterMap_map, links]
  exact congrArg (e :: ·) (List.filterMap_congr fun i _ => behind i)

end Module

/-- A value under the label of the first newtype among the first `k` nodes of the chain of a
type, or under its own label if there is none. -/
def BoundType.labelled (t : BoundType) (k : Nat) (v : Value) : Value :=
  match t.home.module.firstNewtype? k t.expr with
  | some c => ⟨t.child c, v.payload⟩
  | none => v

theorem BoundType.payload_labelled (t : BoundType) (k : Nat) (v : Value) :
    (t.labelled k v).payload = v.payload := by
  unfold labelled
  split <;> rfl

theorem BoundType.labelled_newtype {home : Instance} {n : Name} {u : TypeExpr} (k : Nat)
    (v : Value) :
    (BoundType.mk home (.newtype n u)).labelled (k + 1) v =
      ⟨⟨home, .newtype n u⟩, v.payload⟩ := by
  have next : home.module.next? (.newtype n u) = some u := rfl
  rw [labelled, Module.firstNewtype?, Module.links_succ next]
  rfl

theorem BoundType.labelled_reference {home : Instance} {n : Name} {target : TypeExpr}
    (found : home.module.get? n = some target) (k : Nat) (v : Value) :
    (BoundType.mk home (.reference n)).labelled (k + 1) v =
      (BoundType.mk home target).labelled k v := by
  have next : home.module.next? (.reference n) = some target := found
  rw [labelled, Module.firstNewtype?, Module.links_succ next]
  rfl

variable [RandomSource σ]

section Passing

variable {table : Option (Overrides σ)} {skip : Option Name} {home : Instance} {k : Nat}
  {e c : TypeExpr}

/-- **The nodes without an override change the label alone.**  `r` is the number of the
references among them. -/
theorem drawValue_chain (reached : home.module.chain k e = some c)
    (plain : ∀ d ∈ home.module.links k e, overrideOf table skip ⟨home, d⟩ = none) :
    ∃ r, home.module.Along (fun d => overrideOf table skip ⟨home, d⟩ = none) r e c ∧
      ∀ hops, hops + r ≤ home.module.size + 1 → ∀ fuel size s,
        drawValue table (fuel + k) hops skip ⟨home, e⟩ size s =
          (drawValue table fuel (hops + r) skip ⟨home, c⟩ size s).map
            (BoundType.labelled ⟨home, e⟩ k) := by
  induction k generalizing e with
  | zero =>
      obtain rfl : e = c := Option.some.inj reached
      exact ⟨0, .here, fun hops _ fuel size s => (Outcome.map_id _).symm⟩
  | succ k ih =>
      obtain ⟨d, next, reached⟩ := Option.bind_eq_some_iff.1 reached
      rw [Module.links_succ next, List.forall_mem_cons] at plain
      obtain ⟨here, plain⟩ := plain
      obtain ⟨r, along, drawn⟩ := ih reached plain
      cases e with
      | newtype n u =>
          obtain rfl : u = d := Option.some.inj next
          refine ⟨r, .unwrap here along, fun hops few fuel size s => ?_⟩
          rw [← Nat.add_assoc, drawValue_newtype here rfl, BoundType.child, drawn hops few,
            Outcome.map_map]
          congr 1
          funext v
          rw [BoundType.payload_labelled, BoundType.labelled_newtype]
      | reference n =>
          refine ⟨r + 1, .follow here next along, fun hops few fuel size s => ?_⟩
          have room : hops ≤ home.module.size := by omega
          rw [← Nat.add_assoc, drawValue_reference here rfl next room, BoundType.child,
            drawn (hops + 1) (by omega), Nat.add_assoc, Nat.add_comm 1 r]
          congr 1
          funext v
          rw [BoundType.labelled_reference next]
      | _ => cases next

/-- The count of references does not stop a draw before the node that decides: the first
one that has an override or nothing behind it. -/
theorem exists_drawValue_stop (reached : home.module.chain k e = some c)
    (plain : ∀ d ∈ home.module.links k e, overrideOf table skip ⟨home, d⟩ = none)
    (stop : overrideOf table skip ⟨home, c⟩ = none → home.module.next? c = none) :
    ∃ hops, ∀ fuel size s, drawValue table (fuel + k) 0 skip ⟨home, e⟩ size s =
      (drawValue table fuel hops skip ⟨home, c⟩ size s).map (BoundType.labelled ⟨home, e⟩ k) := by
  obtain ⟨r, along, drawn⟩ := drawValue_chain reached plain
  have few : r ≤ home.module.size :=
    along.passed.le_size fun passed => passed.2 (stop passed.1)
  exact ⟨0 + r, drawn 0 (by omega)⟩

end Passing

/-! ## What a payload depends on -/

namespace Generator

/-- In two contexts, the draws of two generators end alike, with values that `R` relates. -/
def AgreesIn (ctx ctx' : Context σ) {α β : Type} (R : α → β → Prop) (g : Generator σ α)
    (g' : Generator σ β) : Prop :=
  ∀ s, (g ctx s).Seen id R (g' ctx' s)

variable {ctx ctx' : Context σ} {t : BoundType}

omit [RandomSource σ] in
theorem agreesIn_of_eq {α : Type} {g g' : Generator σ α} (same : ∀ s, g' ctx' s = g ctx s) :
    AgreesIn ctx ctx' Eq g g' := by
  intro s
  rw [Outcome.seen_eq_iff, same]
  cases g ctx s <;> rfl

/-- What is drawn without drawing values depends on the fuel and the budget alone. -/
theorem congruence_agreesIn (fuel : ctx'.fuel = ctx.fuel) (size : ctx'.size = ctx.size) :
    Congruence (AgreesIn (σ := σ) ctx ctx') where
  pure holds s := .value s holds
  fail _ e s := .failed e s
  bind := by
    intro α β γ δ R Q g g' f f' first next s
    have seen := first s
    change Outcome.Seen id Q ((g ctx s).andThen _) ((g' ctx' s).andThen _)
    generalize g ctx s = o, g' ctx' s = o' at seen ⊢
    cases seen with
    | value s' holds => exact next _ _ holds s'
    | failed e s' => exact .failed e s'
    | unfinished => exact .unfinished
  size := agreesIn_of_eq fun s => congrArg (Outcome.value · s) size
  word32 := agreesIn_of_eq fun _ => rfl
  word64 := agreesIn_of_eq fun _ => rfl
  byteRun _ := agreesIn_of_eq fun _ => rfl
  below32 _ := agreesIn_of_eq fun _ => by rw [below32, below32, fuel]
  below64 _ := agreesIn_of_eq fun _ => by rw [below64, below64, fuel]
  belowExact _ := agreesIn_of_eq fun _ => by rw [belowExact, belowExact, fuel]

/-- **A payload depends on the draws of its parts under all overrides**, and not on what the
context would draw when a name is passed over. -/
theorem payload_congr (fuel : ctx'.fuel = ctx.fuel) (size : ctx'.size = ctx.size)
    (draws : ∀ c ∈ t.expr.children, ∀ s,
      ctx'.draw none (t.child c) ctx.size s = ctx.draw none (t.child c) ctx.size s) (s : σ) :
    payload t ctx' s = payload t ctx s := by
  have paired : AgreesIn ctx ctx' (Payload.Paired Eq) (payload t) (payload t) := by
    refine (congruence_agreesIn fuel size).payload rfl fun c child => agreesIn_of_eq fun s => ?_
    rw [ofType, ofType, size]
    exact draws c child s
  have seen := (paired s).imp fun _ _ => Payload.eq_of_paired
  rw [Outcome.seen_eq_iff] at seen
  rw [seen]
  cases payload t ctx s <;> rfl

end Generator

/-- The context in which no name is ever passed over: every value is drawn as
`Generator.ofType` draws it under the table. -/
def Context.passingNone (fuel size : Nat) (table : Overrides σ) : Context σ :=
  ⟨fuel, size, some table.size, fun _ t size s =>
    Generator.ofType t (Context.start fuel size (some table)) s⟩

/-! ## Draws along chains -/

/-- The draws of `g` under a table follow the chain of a type, with the override of one name
passed over. -/
structure DrawnAlong (table : Overrides σ) (t : BoundType) (skip : Option Name)
    (g : Generator σ Value) : Prop where
  /-- The first node with an override decides: the override is drawn once, in the place of
  that node and with a budget smaller by ten, under the same table.  Nothing else is drawn,
  and only the label is changed. -/
  overridden {k : Nat} {c : TypeExpr} {n : Name} {h : Generator σ Value} :
    t.home.module.chain k t.expr = some c →
    (∀ d ∈ t.home.module.links k t.expr, d.Plain table skip) →
    c.name? = some n → skip ≠ some n → table.get? n = some h →
    ∀ fuel size s, g (Context.start (fuel + (k + 1)) size (some table)) s =
      (h (Context.start fuel (size - 10) (some table)) s).map (t.labelled k)
  /-- If no node has an override, the one that bears a payload decides: the payload is drawn
  for it with the whole budget, and its parts are drawn without passing any name over. -/
  settled {k : Nat} {c : TypeExpr} :
    t.home.module.chain k t.expr = some c → c.isIndirect = false →
    (∀ d ∈ t.home.module.links k t.expr, d.Plain table skip) → c.Plain table skip →
    ∀ fuel size s, g (Context.start (fuel + (k + 1)) size (some table)) s =
      (Generator.payload (t.child c) (Context.passingNone fuel size table) s).map fun p =>
        t.labelled k ⟨t.child c, p⟩
  /-- If there is no such node either, the draw fails at the undefined name at which the
  chain ends, or at a loop if it does not end, and takes no word. -/
  stuck :
    (∀ k c, t.home.module.chain k t.expr = some c → c.Plain table skip ∧ c.isIndirect = true) →
    (∃ x, t.home.module.Dangles t.expr x ∧ ∃ bound, ∀ fuel size s, bound ≤ fuel →
        g (Context.start fuel size (some table)) s = .failed (.unresolvedReference x) s) ∨
      (t.home.module.Endless t.expr ∧ ∃ x, t.home.module.ComesAgain t.expr x ∧
        ∃ bound, ∀ fuel size s, bound ≤ fuel →
          g (Context.start fuel size (some table)) s = .failed (.indirectionCycle x) s)

/-- An override on the chain of a type that keeps a record of its invocations
(`Generator.watched`) enters itself once, with a budget smaller by ten, when it is the first
one there. -/
def EntersOnce (table : Overrides (Watched σ)) (t : BoundType) (skip : Option Name)
    (g : Generator (Watched σ) Value) : Prop :=
  ∀ k c n h, t.home.module.chain k t.expr = some c →
    (∀ d ∈ t.home.module.links k t.expr, d.Plain table skip) →
    c.name? = some n → skip ≠ some n → table.get? n = some (Generator.watched n h) →
    ∀ fuel size w, g (Context.start (fuel + (k + 1)) size (some table)) w =
      ((h (Context.start fuel (size - 10) (some table)) (w.enter n (size - 10))).mapSource
        Watched.leave).map (t.labelled k)

section Deciding

variable {table : Overrides σ} {skip : Option Name} {home : Instance} {k : Nat}
  {e c : TypeExpr}

theorem drawValue_of_overridden {n : Name} {h : Generator σ Value}
    (reached : home.module.chain k e = some c)
    (plain : ∀ d ∈ home.module.links k e, d.Plain table skip)
    (named : c.name? = some n) (other : skip ≠ some n) (found : table.get? n = some h)
    (fuel size : Nat) (s : σ) :
    drawValue (some table) (fuel + (k + 1)) 0 skip ⟨home, e⟩ size s =
      (h (Context.start fuel (size - overrideCost) (some table)) s).map
        (BoundType.labelled ⟨home, e⟩ k) := by
  have covered : overrideOf (some table) skip ⟨home, c⟩ = some h :=
    (overrideOf_of_named named other).trans found
  obtain ⟨hops, drawn⟩ := exists_drawValue_stop reached
    (fun d link => overrideOf_eq_none_iff.2 (plain d link))
    fun none => by
      rw [covered] at none
      cases none
  rw [Nat.add_comm k, ← Nat.add_assoc, drawn, drawValue_override covered]

theorem drawValue_of_settled (reached : home.module.chain k e = some c)
    (direct : c.isIndirect = false) (plain : ∀ d ∈ home.module.links k e, d.Plain table skip)
    (here : c.Plain table skip) (fuel size : Nat) (s : σ) :
    drawValue (some table) (fuel + (k + 1)) 0 skip ⟨home, e⟩ size s =
      (Generator.payload ⟨home, c⟩ (Context.passingNone fuel size table) s).map fun p =>
        BoundType.labelled ⟨home, e⟩ k ⟨⟨home, c⟩, p⟩ := by
  obtain ⟨hops, drawn⟩ := exists_drawValue_stop reached
    (fun d link => overrideOf_eq_none_iff.2 (plain d link))
    fun _ => Module.next?_of_direct direct
  have parts : Generator.payload ⟨home, c⟩ (Context.passingNone fuel size table) s =
      Generator.payload ⟨home, c⟩ (Context.start fuel size (some table)) s := by
    refine Generator.payload_congr ?_ ?_ (fun d child s => ?_) s
    · rfl
    · rfl
    · rfl
  rw [Nat.add_comm k, ← Nat.add_assoc, drawn,
    drawValue_direct (overrideOf_eq_none_iff.2 here) direct, Outcome.map_map, parts]

/-- Where no node of a chain decides, the draw has the fault of the chain. -/
theorem exists_failed_of_stuck {error : DrawError}
    (plain : ∀ k c, home.module.chain k e = some c → c.Plain table skip)
    (fault : (home.module.head e).fault? = some error) :
    ∃ bound, ∀ fuel size s, bound ≤ fuel →
      drawValue (some table) fuel 0 skip ⟨home, e⟩ size s = .failed error s := by
  refine exists_drawn_fault (fun r c along => ?_) fault
  obtain ⟨k, reached⟩ := along.exists_chain
  exact overrideOf_eq_none_iff.2 (plain k c reached)

end Deciding

/-- A draw of a type follows its chain, whichever name is passed over. -/
theorem drawnAlong_of_skip (table : Overrides σ) (t : BoundType) (skip : Option Name)
    {g : Generator σ Value}
    (draws : ∀ fuel size s, g (Context.start fuel size (some table)) s =
      drawValue (some table) fuel 0 skip t size s) : DrawnAlong table t skip g where
  overridden reached plain named other found fuel size s :=
    (draws _ size s).trans (drawValue_of_overridden reached plain named other found fuel size s)
  settled reached direct plain here fuel size s :=
    (draws _ size s).trans (drawValue_of_settled reached direct plain here fuel size s)
  stuck := by
    intro all
    have plain : ∀ k c, t.home.module.chain k t.expr = some c → c.Plain table skip :=
      fun k c reached => (all k c reached).1
    cases answer : t.home.module.head t.expr with
    | settled h =>
        obtain ⟨direct, k, reached⟩ := Module.head_settled_iff.1 answer
        rw [(all k h reached).2] at direct
        cases direct
    | undefined x =>
        have fault : (t.home.module.head t.expr).fault? = some (.unresolvedReference x) := by
          rw [answer, Head.fault?]
        obtain ⟨bound, fails⟩ := exists_failed_of_stuck plain fault
        exact .inl ⟨x, Module.head_undefined_iff.1 answer, bound, fun fuel size s enough =>
          (draws fuel size s).trans (fails fuel size s enough)⟩
    | looping x =>
        have fault : (t.home.module.head t.expr).fault? = some (.indirectionCycle x) := by
          rw [answer, Head.fault?]
        obtain ⟨bound, fails⟩ := exists_failed_of_stuck plain fault
        exact .inr ⟨Module.exists_looping_iff.1 ⟨x, answer⟩, x,
          Module.comesAgain_of_looping answer, bound, fun fuel size s enough =>
            (draws fuel size s).trans (fails fuel size s enough)⟩

theorem DrawnAlong.entersOnce {table : Overrides (Watched σ)} {t : BoundType}
    {skip : Option Name} {g : Generator (Watched σ) Value} (along : DrawnAlong table t skip g) :
    EntersOnce table t skip g :=
  fun _ _ _ _ reached plain named other found =>
    along.overridden reached plain named other found

/-- **What a draw makes of the chain of its type.**  `Generator.ofType` passes no name over,
and `Generator.structural` the name of the type itself; both follow the chain in the same way,
under every table of overrides, and enter the override that decides once. -/
theorem drawn_along_chain (t : BoundType) :
    (∀ table : Overrides σ, DrawnAlong table t none (Generator.ofType t) ∧
        DrawnAlong table t t.name? (Generator.structural t)) ∧
      ∀ table : Overrides (Watched σ), EntersOnce table t none (Generator.ofType t) ∧
        EntersOnce table t t.name? (Generator.structural t) := by
  have whole : ∀ {τ : Type} [RandomSource τ] (table : Overrides τ),
      DrawnAlong table t none (Generator.ofType t) ∧
        DrawnAlong table t t.name? (Generator.structural t) := by
    intro τ _ table
    constructor
    · exact drawnAlong_of_skip table t none fun _ _ _ => rfl
    · exact drawnAlong_of_skip table t t.name? fun _ _ _ => rfl
  refine ⟨whole, fun table => ?_⟩
  obtain ⟨plain, structural⟩ := whole table
  exact ⟨plain.entersOnce, structural.entersOnce⟩

namespace Example

def dose : Name := ⟨"t", "Dose", by decide⟩

/-- A newtype over a reference to a newtype. -/
def tablet : BoundType :=
  ⟨⟨5, ⟨.ofList [(dose, .newtype dose (.primitive .int64))]⟩⟩,
    .newtype ⟨"t", "Tablet", by decide⟩ (.reference dose)⟩

/-- The number that stands for a dose is the budget. -/
def ofBudget : Overrides Scripted :=
  .ofNames [dose] fun _ => do pure (Value.ofScalar (.int32 (Int32.ofNat (← Generator.size))))

/- The override stands in for the reference, and the newtype above it labels what it gives. -/
example : Generator.ofType tablet (Context.start 2 30 (some ofBudget)) (Scripted.start [] 0) =
    .value ⟨tablet, .scalar (.int32 20)⟩ (Scripted.start [] 0) := by rfl

/- With the name of the reference passed over, its definition is drawn. -/
example : Generator.structural (tablet.child (.reference dose))
      (Context.start 3 30 (some ofBudget)) (Scripted.start [7] 0) =
    .value ⟨tablet.child (.newtype dose (.primitive .int64)), .scalar (.int64 7)⟩ ⟨[], 0, 1⟩ := by
  rfl

end Example

end SchemaData
