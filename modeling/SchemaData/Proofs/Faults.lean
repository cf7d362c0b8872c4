import SchemaData.Proofs.Indirection
import SchemaData.Proofs.Under

/-!
# SchemaData.Proofs.Faults -- the check and the draw fail on the same chains

A type whose chain ends at an undefined name, or not at all, has a fault: the check
reports it at the root for every payload, and a draw fails with it.  The check and the
draw count references on their own; that they agree on every chain, and on the name that
they report, is what this module shows.

* `drawValue_along`: a draw under any table of overrides goes along a chain, as far as no
  node of it is overridden, and takes no word on the way.
* `exists_drawn_fault`: so a draw of a type with a fault fails with that fault, and with no
  other outcome for any amount of fuel (`exists_bound_of_fault`).
* `blamed_of_drawn`: and a draw that fails with a fault has come to a node with that
  fault.  On the way along a chain the invariant is that the references that may still be
  followed lead the walk of `Module.head` to where it ends from the first node.

`drawn_faults` states both directions of whole draws without overrides.
-/

namespace SchemaData

set_option autoImplicit false

/-- The error of a draw of a node whose walk ends without a payload. -/
def Head.fault? : Head → Option DrawError
  | settled _ => none
  | undefined n => some (.unresolvedReference n)
  | looping n => some (.indirectionCycle n)

/-- A reason that the check reports and the error of a draw that say the same of a
chain. -/
inductive SameFault : MismatchReason → DrawError → Prop
  | undefined (x : Name) : SameFault (.unresolvedReference x) (.unresolvedReference x)
  | looping (x : Name) : SameFault (.indirectionCycle x) (.indirectionCycle x)

namespace Module

variable {m : Module} {e : TypeExpr} {x : Name}

/-- The check reports a fault at the root exactly for the nodes that have it. -/
theorem findMismatch_fault_iff {reason : MismatchReason} {error : DrawError}
    (same : SameFault reason error) (p : Payload) :
    m.findMismatch e p = some (.atRoot reason) ↔ (m.head e).fault? = some error := by
  cases same with
  | undefined x =>
      rw [findMismatch_undefined_iff]
      cases m.head e <;> simp [Head.fault?]
  | looping x =>
      rw [findMismatch_looping_iff]
      cases m.head e <;> simp [Head.fault?]

theorem found_of_looping (looping : m.head e = .looping x) :
    ∃ target, m.get? x = some target := by
  obtain ⟨name, -, -, first, -, refers⟩ := exists_round looping
  obtain ⟨target, found, -⟩ := refers 0
  exact ⟨target, first ▸ found⟩

end Module

variable {σ : Type} [RandomSource σ]

/-! ## Draws along a chain -/

section Along

variable {table : Option (Overrides σ)} {skip : Option Name} {home : Instance}

/-- **A draw goes along a chain.**  As long as no node is overridden and the count of
references is within its bound, a draw of a node is a draw of a later node of its chain,
with less fuel and another label. -/
theorem drawValue_along {r hops : Nat} {e c : TypeExpr}
    (along : home.module.Along (fun c => overrideOf table skip ⟨home, c⟩ = none) r e c)
    (few : hops + r ≤ home.module.size + 1) :
    ∃ (k : Nat) (relabel : BoundType → BoundType), ∀ fuel size s,
      drawValue table fuel hops skip ⟨home, e⟩ size s =
        (drawValue table (fuel - k) (hops + r) skip ⟨home, c⟩ size s).map
          fun v => ⟨relabel v.type, v.payload⟩ := by
  induction along generalizing hops with
  | here =>
      refine ⟨0, id, fun fuel size s => ?_⟩
      rw [Nat.sub_zero, Nat.add_zero]
      cases drawValue table fuel hops skip ⟨home, _⟩ size s <;> rfl
  | @unwrap r n u c plain _ ih =>
      obtain ⟨k, relabel, rest⟩ := ih few
      refine ⟨k + 1, fun _ => ⟨home, .newtype n u⟩, fun fuel size s => ?_⟩
      cases fuel with
      | zero => rw [Nat.zero_sub]; rfl
      | succ fuel =>
          rw [drawValue_newtype plain rfl, Nat.succ_sub_succ, BoundType.child, rest]
          cases drawValue table (fuel - k) _ skip _ size s <;> rfl
  | @follow r n target c plain found _ ih =>
      have room : hops ≤ home.module.size := by omega
      have left : hops + 1 + r ≤ home.module.size + 1 := by omega
      obtain ⟨k, relabel, rest⟩ := ih left
      refine ⟨k + 1, relabel, fun fuel size s => ?_⟩
      cases fuel with
      | zero => rw [Nat.zero_sub]; rfl
      | succ fuel =>
          rw [drawValue_reference plain rfl found room, Nat.succ_sub_succ,
            BoundType.child, rest, Nat.add_assoc, Nat.add_comm 1 r]

/-- A draw of a node with a fault fails with it and takes no word, when no node of its chain
is overridden; and with too little fuel it does not end in another way. -/
theorem exists_bound_of_fault {e : TypeExpr} {error : DrawError}
    (plain : ∀ r c, home.module.Along (fun c => overrideOf table skip ⟨home, c⟩ = none) r e c →
      overrideOf table skip ⟨home, c⟩ = none)
    (fault : (home.module.head e).fault? = some error) :
    ∃ bound, ∀ fuel size s, drawValue table fuel 0 skip ⟨home, e⟩ size s =
      if bound ≤ fuel then .failed error s else .unfinished := by
  obtain ⟨r, le, along, whole⟩ :=
    Module.along_of_headWithin (k := home.module.size + 1) plain
  rw [← Module.head] at along whole
  have few : 0 + r ≤ home.module.size + 1 := by omega
  obtain ⟨k, relabel, drawn⟩ := drawValue_along along few
  have here := plain r _ along
  refine ⟨k + 1, fun fuel size s => ?_⟩
  rw [drawn]
  split
  · rename_i enough
    obtain ⟨fuel, rfl⟩ : ∃ f, fuel = f + 1 + k := ⟨fuel - (k + 1), by omega⟩
    rw [Nat.add_sub_cancel]
    cases answer : home.module.head e with
    | settled h =>
        rw [answer] at fault
        cases fault
    | undefined x =>
        rw [answer] at fault here
        cases fault
        rw [Head.node] at here ⊢
        rw [drawValue_undefined here rfl (Module.missing_of_undefined answer)]
        rfl
    | looping x =>
        obtain ⟨target, found⟩ := Module.found_of_looping answer
        obtain rfl := whole x answer
        rw [answer] at fault here
        cases fault
        rw [Head.node] at here ⊢
        rw [Nat.zero_add, drawValue_cycle here rfl found (Nat.lt_succ_self _)]
        rfl
  · rename_i short
    obtain none : fuel - k = 0 := by omega
    rw [none]
    rfl

/-- **A draw of a node with a fault fails with it**, and takes no word, when no node of
its chain is overridden. -/
theorem exists_drawn_fault {e : TypeExpr} {error : DrawError}
    (plain : ∀ r c, home.module.Along (fun c => overrideOf table skip ⟨home, c⟩ = none) r e c →
      overrideOf table skip ⟨home, c⟩ = none)
    (fault : (home.module.head e).fault? = some error) :
    ∃ bound, ∀ fuel size s, bound ≤ fuel →
      drawValue table fuel 0 skip ⟨home, e⟩ size s = .failed error s := by
  obtain ⟨bound, drawn⟩ := exists_bound_of_fault plain fault
  exact ⟨bound, fun fuel size s enough => (drawn fuel size s).trans (if_pos enough)⟩

end Along

/-! ## What a failed draw came to -/

/-- A draw of a node may fail for want of something to choose from, and otherwise with
the fault of a node that it leads to. -/
def Module.Blamed (m : Module) (e : TypeExpr) (error : DrawError) : Prop :=
  (∃ what, error = .emptyChoice what) ∨
    ∃ c, m.Reaches e c ∧ (m.head c).fault? = some error

/-- The draw is in the chain of a node to which `start` leads, and with the references that
are left the walk from here ends as the walk from there. -/
def Module.OnTheWay (m : Module) (start : TypeExpr) (hops : Nat) (e : TypeExpr) : Prop :=
  ∃ c, m.Reaches start c ∧ m.Reaches c e ∧ hops ≤ m.size + 1 ∧
    m.headWithin (m.size + 1 - hops) e = m.head c

omit [RandomSource σ] in
/-- The steps of a draw without overrides fail with the faults of nodes on the way. -/
theorem blamingRules (home : Instance) (start : TypeExpr) :
    DrawRules (some (∅ : Overrides σ)) home (fun hops _ => home.module.OnTheWay start hops)
      (fun _ _ => True) (home.module.Blamed start) where
  -- A chain ends at a payload, and new ones begin at the children.
  children := by
    rintro _ _ e c ⟨d, before, behind, -⟩ - - child
    exact ⟨c, (before.trans behind).tail (.child child), .refl, Nat.zero_le _, rfl⟩
  underlying := by
    rintro _ _ n u ⟨c, before, behind, few, walk⟩ -
    rw [Module.headWithin_newtype] at walk
    exact ⟨c, before, behind.tail (.child List.mem_cons_self), few, walk⟩
  definition := by
    rintro hops _ n target ⟨c, before, behind, -, walk⟩ - found room
    obtain ⟨left, spare⟩ : ∃ l, home.module.size + 1 - hops = l + 1 :=
      ⟨home.module.size - hops, by omega⟩
    rw [spare, Module.headWithin_found rfl found] at walk
    refine ⟨c, before, behind.tail (.definition found), by omega, ?_⟩
    rw [← walk]
    congr 1
    omega
  payload _ _ _ _ := trivial
  newtype _ := trivial
  reference _ _ := trivial
  choice what _ _ := .inl ⟨what, rfl⟩
  undefined := by
    rintro _ _ n ⟨c, before, -, -, walk⟩ missing
    rw [Module.headWithin_undefined rfl missing] at walk
    exact .inr ⟨c, before, by rw [← walk, Head.fault?]⟩
  cycle := by
    rintro hops _ n target ⟨c, before, -, few, walk⟩ found many
    obtain rfl : hops = home.module.size + 1 := by omega
    rw [Nat.sub_self, Module.headWithin_looping rfl found] at walk
    exact .inr ⟨c, before, by rw [← walk, Head.fault?]⟩

/-- **A draw that fails with a fault has come to a node with it.** -/
theorem blamed_of_drawn (t : BoundType) (fuel size : Nat) (s : σ) :
    (drawValue (some ∅) fuel 0 none t size s).Meets (fun _ => True)
      (t.home.module.Blamed t.expr) :=
  (blamingRules t.home t.expr).meets (callsEnsure_empty _ _ _ _ _) (Nat.le_refl fuel) 0 none t.expr
    ⟨t.expr, .refl, .refl, Nat.zero_le _, rfl⟩ size s

/-- **The check and the draw agree on the types with a fault.**  If the check reports a
fault at the root for some payload, then every draw without overrides fails with the same
fault and name, from every source and with every budget, and takes no word.  Conversely,
if a draw fails with a fault, then the type leads to a type of the same instance for
which the check reports that fault, with the same name, at the root of every payload. -/
theorem drawn_faults (t : BoundType) :
    (∀ reason error p, SameFault reason error → t.findMismatch p = some (.atRoot reason) →
        ∃ bound, ∀ (ctx : Context σ) (s : σ), bound ≤ ctx.fuel →
          (ValueGenerator.plain t).generator ctx s = .failed error s) ∧
      ∀ reason error (ctx : Context σ) (s s' : σ), SameFault reason error →
        (ValueGenerator.plain t).generator ctx s = .failed error s' →
          ∃ c, t.home.module.Reaches t.expr c ∧
            ∀ q, (t.child c).findMismatch q = some (.atRoot reason) := by
  constructor
  · intro reason error p same reported
    have fault := (Module.findMismatch_fault_iff same p).1 reported
    have plain : ∀ c, overrideOf (some (∅ : Overrides σ)) none ⟨t.home, c⟩ = none :=
      fun c => overrideOf_empty none _
    obtain ⟨bound, drawn⟩ := exists_drawn_fault (fun _ c _ => plain c) fault
    exact ⟨bound, fun ctx s enough => drawn ctx.fuel ctx.size s enough⟩
  · intro reason error ctx s s' same failed
    have blamed : (drawValue (some ∅) ctx.fuel 0 none t ctx.size s).Meets (fun _ => True)
        (t.home.module.Blamed t.expr) :=
      blamed_of_drawn t ctx.fuel ctx.size s
    change drawValue (some ∅) ctx.fuel 0 none t ctx.size s = .failed error s' at failed
    rw [failed] at blamed
    obtain ⟨what, choice⟩ | ⟨c, reaches, fault⟩ := blamed
    · rw [choice] at same
      cases same
    · exact ⟨c, reaches, fun q => (Module.findMismatch_fault_iff same q).2 fault⟩

end SchemaData
