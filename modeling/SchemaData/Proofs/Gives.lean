import SchemaData.Generator.Values
import SchemaData.Proofs.Chain

/-!
# SchemaData.Proofs.Gives -- what a draw gives when its fuel does not run out

`g.Gives size s a s'` says that a draw of `g` without overrides, with the budget
`size` and from the source `s`, gives `a` and leaves `s'`, for all amounts of fuel
from some bound on.  The bound is part of the statement, so that draws in sequence
need no count of their fuel: `gives_bind` takes the larger of the two bounds.

A value of a type is drawn along a chain of newtypes and references.
`gives_ofType_of_head` skips the chain: what is drawn for the head of a node is drawn
for the node, with another label.  A draw counts the references that it follows just
as `Module.head` does, so it gives up on no chain that has a head
(`gives_along_of_headWithin`).
-/

namespace SchemaData

set_option autoImplicit false

variable {σ α β : Type} [RandomSource σ]

namespace Generator

/-- From some amount of fuel on, a draw gives `a` and leaves `s'`. -/
def Gives (size : Nat) (g : Generator σ α) (s : σ) (a : α) (s' : σ) : Prop :=
  ∃ bound, ∀ fuel, bound ≤ fuel → g (Context.start fuel size (some ∅)) s = .value a s'

variable {size : Nat} {s s' s'' : σ}

theorem gives_pure (a : α) (s : σ) : (pure a : Generator σ α).Gives size s a s :=
  ⟨0, fun _ _ => rfl⟩

theorem gives_bind {g : Generator σ α} {f : α → Generator σ β} {a : α} {b : β}
    (first : g.Gives size s a s') (next : (f a).Gives size s' b s'') :
    (g >>= f).Gives size s b s'' := by
  obtain ⟨n, first⟩ := first
  obtain ⟨k, next⟩ := next
  refine ⟨max n k, fun fuel enough => ?_⟩
  show Outcome.andThen (g _ s) _ = _
  rw [first fuel (by omega)]
  exact next fuel (by omega)

/-! ## Words -/

omit [RandomSource σ] in
/-- A loop that has ended is not changed by more tries. -/
theorem firstAccepted_of_le {ω : Type} {next : σ → ω × σ} {accept : ω → Option α} {a : α}
    {n k : Nat} (le : n ≤ k) (ended : firstAccepted next accept n s = .value a s') :
    firstAccepted next accept k s = .value a s' := by
  induction n generalizing s k with
  | zero => cases ended
  | succ n ih =>
      obtain ⟨k, rfl⟩ : ∃ j, k = j + 1 := ⟨k - 1, by omega⟩
      rw [firstAccepted] at ended ⊢
      split at ended
      · exact ended
      · exact ih (by omega) ended

/-- A generator that is one loop gives what the loop ends with. -/
theorem gives_of_firstAccepted {ω : Type} {next : σ → ω × σ} {accept : ω → Option α}
    {g : Generator σ α} {a : α} {tries : Nat}
    (loop : ∀ ctx s, g ctx s = firstAccepted next accept ctx.fuel s)
    (ended : firstAccepted next accept tries s = .value a s') : g.Gives size s a s' :=
  ⟨tries, fun _ enough => (loop _ s).trans (firstAccepted_of_le enough ended)⟩

/-- A generator that is one loop gives what the first word is accepted for. -/
theorem gives_of_accepted {ω : Type} {next : σ → ω × σ} {accept : ω → Option α}
    {g : Generator σ α} {a : α}
    (loop : ∀ ctx s, g ctx s = firstAccepted next accept ctx.fuel s)
    (accepted : accept (next s).1 = some a) : g.Gives size s a (next s).2 := by
  have ended : firstAccepted next accept 1 s = .value a (next s).2 := by
    rw [firstAccepted, accepted]
  exact gives_of_firstAccepted loop ended

/-! ## Values of a type -/

/-- A draw of a value after `hops` references, with the override of one name passed
over. -/
def along (hops : Nat) (skip : Option Name) (t : BoundType) : Generator σ Value :=
  fun ctx s => drawValue (some ∅) ctx.fuel hops skip t ctx.size s

variable {hops : Nat} {skip : Option Name} {t : BoundType} {p : Payload} {v : Value}

/-- A draw spends one unit of fuel on each node. -/
theorem gives_along {bound : Nat} (step : ∀ fuel, bound ≤ fuel →
      drawValue (some ∅) (fuel + 1) hops skip t size s = .value v s') :
    (along hops skip t).Gives size s v s' := by
  refine ⟨bound + 1, fun fuel enough => ?_⟩
  obtain ⟨fuel, rfl⟩ : ∃ k, fuel = k + 1 := ⟨fuel - 1, by omega⟩
  exact step fuel (by omega)

theorem gives_along_direct (direct : t.expr.isIndirect = false)
    (gives : (payload t).Gives size s p s') : (along hops skip t).Gives size s ⟨t, p⟩ s' := by
  obtain ⟨bound, gives⟩ := gives
  refine gives_along fun fuel (enough : bound ≤ fuel) => ?_
  rw [drawValue_direct (overrideOf_empty skip t) direct, gives fuel enough, Outcome.map]

theorem gives_along_newtype {n : Name} {u : TypeExpr} (form : t.expr = .newtype n u)
    (gives : (along hops skip (t.child u)).Gives size s v s') :
    (along hops skip t).Gives size s ⟨t, v.payload⟩ s' := by
  obtain ⟨bound, gives⟩ := gives
  refine gives_along fun fuel (enough : bound ≤ fuel) => ?_
  have drawn : drawValue (some ∅) fuel hops skip (t.child u) size s = .value v s' :=
    gives fuel enough
  rw [drawValue_newtype (overrideOf_empty skip t) form, drawn, Outcome.map]

theorem gives_along_reference {n : Name} {target : TypeExpr} (form : t.expr = .reference n)
    (found : t.home.module.get? n = some target) (few : hops ≤ t.home.module.size)
    (gives : (along (hops + 1) skip (t.child target)).Gives size s v s') :
    (along hops skip t).Gives size s v s' := by
  obtain ⟨bound, gives⟩ := gives
  refine gives_along fun fuel (enough : bound ≤ fuel) => ?_
  rw [drawValue_reference (overrideOf_empty skip t) form found few]
  exact gives fuel enough

variable (σ)

/-- Newtypes change the label alone. -/
theorem gives_along_of_unwrap (home : Instance) (hops : Nat) (skip : Option Name) :
    (e : TypeExpr) → ∃ relabel : BoundType → BoundType, ∀ size (s : σ) v s',
      (along hops skip ⟨home, e.unwrap⟩).Gives size s v s' →
        (along hops skip ⟨home, e⟩).Gives size s ⟨relabel v.type, v.payload⟩ s'
  | .newtype n u => by
      obtain ⟨relabel, below⟩ := gives_along_of_unwrap home hops skip u
      refine ⟨fun _ => ⟨home, .newtype n u⟩, fun size s v s' gives => ?_⟩
      have underlying := below size s v s' gives
      exact gives_along_newtype (v := ⟨relabel v.type, v.payload⟩) rfl underlying
  | .primitive _ | .array _ | .map _ | .optional _ | .enum .. | .record .. | .variant .. |
    .reference _ => ⟨id, fun _ _ _ _ gives => gives⟩

/-- A draw follows a chain to its end when the walk to the head needs no more references
than the draw may still follow. -/
theorem gives_along_of_headWithin {home : Instance} {left hops : Nat} {e h : TypeExpr}
    (skip : Option Name) (settled : home.module.headWithin left e = .settled h)
    (few : hops + left ≤ home.module.size + 1) :
    ∃ label, ∀ size (s : σ) p s', (payload ⟨home, h⟩).Gives size s p s' →
      (along hops skip ⟨home, e⟩).Gives size s ⟨label, p⟩ s' := by
  suffices unwrapped : ∃ label, ∀ size (s : σ) p s', (payload ⟨home, h⟩).Gives size s p s' →
      (along hops skip ⟨home, e.unwrap⟩).Gives size s ⟨label, p⟩ s' by
    obtain ⟨label, unwrapped⟩ := unwrapped
    obtain ⟨relabel, whole⟩ := gives_along_of_unwrap σ home hops skip e
    exact ⟨relabel label, fun size s p s' gives =>
      whole size s _ s' (unwrapped size s p s' gives)⟩
  induction left generalizing hops e with
  | zero =>
      obtain ⟨unwrapped, direct⟩ | ⟨n, target, j, more, -⟩ := Module.settled_cases settled
      · rw [unwrapped]
        exact ⟨_, fun size s p s' => gives_along_direct direct⟩
      · omega
  | succ left ih =>
      obtain ⟨unwrapped, direct⟩ | ⟨n, target, j, more, unwrapped, found, behind⟩ :=
        Module.settled_cases settled
      · rw [unwrapped]
        exact ⟨_, fun size s p s' => gives_along_direct direct⟩
      · obtain rfl := Nat.succ.inj more
        have room : hops + 1 + left ≤ home.module.size + 1 := by omega
        have spare : hops ≤ home.module.size := by omega
        obtain ⟨label, below⟩ := ih behind room
        obtain ⟨relabel, whole⟩ := gives_along_of_unwrap σ home (hops + 1) skip target
        refine ⟨relabel label, fun size s p s' gives => ?_⟩
        have drawn := whole size s _ s' (below size s p s' gives)
        exact gives_along_reference unwrapped found spare drawn

/-- **What is drawn for the head of a node is drawn for the node**, with another label. -/
theorem gives_ofType_of_head {h : TypeExpr} (settled : t.home.module.head t.expr = .settled h) :
    ∃ label, ∀ size (s : σ) p s', (payload (t.child h)).Gives size s p s' →
      (ofType t).Gives size s ⟨label, p⟩ s' := by
  have enough : 0 + (t.home.module.size + 1) ≤ t.home.module.size + 1 := by omega
  exact gives_along_of_headWithin σ none settled enough

variable {σ}

/-- A value of a type drawn without overrides, in whatever context. -/
theorem gives_plain (gives : (ofType t).Gives size s v s') :
    ∃ bound, ∀ ctx : Context σ, ctx.size = size → bound ≤ ctx.fuel →
      (ValueGenerator.plain t).generator ctx s = .value v s' := by
  obtain ⟨bound, gives⟩ := gives
  refine ⟨bound, fun ctx same enough => ?_⟩
  rw [← gives ctx.fuel enough, ← same]
  rfl

end Generator

end SchemaData
