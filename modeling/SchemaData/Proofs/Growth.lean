import SchemaData.Proofs.Judged

/-!
# SchemaData.Proofs.Growth -- more definitions do no harm

A module is assembled step by step, and payloads may be checked before it is complete.  The
check counts the references that it follows against the number of definitions, so that it
looks at the whole module, also at definitions to which no reference leads.  Yet it depends
on those that it reaches alone.

* `conforms_of_extended`: what fits in a module fits in every module that extends it.
* `chain_of_extended`: a chain goes the same way in the larger module, as far as it goes.
  Where every reference has a definition, it goes on only if it is endless in both.

`findMismatch_of_extended` puts this together.  One thing may change: the reference at which
a loop is noticed is the one with which the count runs out, and the larger module counts
further.
-/

namespace SchemaData

set_option autoImplicit false

/-- The same reason, but for the name at which a loop was noticed. -/
inductive MismatchReason.Alike : MismatchReason → MismatchReason → Prop
  | same (reason : MismatchReason) : Alike reason reason
  | looping (x y : Name) : Alike (.indirectionCycle x) (.indirectionCycle y)

/-- The same place and the same reason, but for the name at which a loop was noticed. -/
structure Mismatch.Alike (f f' : Mismatch) : Prop where
  path : f'.path = f.path
  reason : f.reason.Alike f'.reason

namespace Module

/-- Every definition of `m` is one of `m'`, under the same name. -/
def ExtendedBy (m m' : Module) : Prop :=
  ∀ n e, m.get? n = some e → m'.get? n = some e

variable {m m' : Module} {e c : TypeExpr}

theorem extendedBy_insert {n : Name} (fresh : m.get? n = none) (e : TypeExpr) :
    m.ExtendedBy ⟨m.definitions.insert n e⟩ := by
  intro n' e' found
  have other : n' ≠ n := by
    rintro rfl
    rw [fresh] at found
    cases found
  show (m.definitions.insert n e).get? n' = some e'
  rw [NameMap.get?_insert, if_neg other]
  exact found

section Extended

variable (grown : m.ExtendedBy m')

include grown

/-- What fits in a module fits in a larger one. -/
theorem conforms_of_extended {p : Payload} (conforms : Conforms m e p) : Conforms m' e p := by
  induction conforms with
  | scalar s => exact .scalar s
  | array _ ih => exact .array ih
  | map _ ih => exact .map ih
  | absent => exact .absent
  | present _ ih => exact .present ih
  | enum member => exact .enum member
  | record arity _ ih => exact .record arity ih
  | variant chosen arity _ ih => exact .variant chosen arity ih
  | newtype _ ih => exact .newtype ih
  | reference found _ ih => exact .reference (grown _ _ found) ih

theorem next?_of_extended (next : m.next? e = some c) : m'.next? e = some c := by
  cases e with
  | newtype n u => exact next
  | reference n => exact grown n c next
  | _ => cases next

/-- A chain goes the same way in a larger module. -/
theorem chain_of_extended {k : Nat} (reached : m.chain k e = some c) : m'.chain k e = some c := by
  induction k generalizing e with
  | zero => exact reached
  | succ k ih =>
      obtain ⟨d, next, rest⟩ := Option.bind_eq_some_iff.1 reached
      rw [chain, next?_of_extended grown next]
      exact ih rest

theorem head_settled_of_extended {h : TypeExpr} (settled : m.head e = .settled h) :
    m'.head e = .settled h := by
  obtain ⟨direct, k, reached⟩ := head_settled_iff.1 settled
  exact head_settled_iff.2 ⟨direct, k, chain_of_extended grown reached⟩

theorem exists_looping_of_extended {x : Name} (looping : m.head e = .looping x) :
    ∃ y, m'.head e = .looping y := by
  have endless := exists_looping_iff.1 ⟨x, looping⟩
  refine exists_looping_iff.2 fun k => ?_
  obtain ⟨c, reached⟩ := endless k
  exact ⟨c, chain_of_extended grown reached⟩

/-- Where every reference has a definition, the checks in both modules report the same, but
for the name at which a loop is noticed. -/
theorem findMismatch_alike (resolves : m.Throughout m.Resolves e) (p : Payload) :
    Option.Rel Mismatch.Alike (m.findMismatch e p) (m'.findMismatch e p) := by
  have within : ∀ s f f', Mismatch.Alike f f' → (f.within s).Alike (f'.within s) :=
    fun s _ _ alike => ⟨congrArg (s :: ·) alike.path, alike.reason⟩
  have own : ∀ reason : MismatchReason, reason.Own →
      (Mismatch.atRoot reason).Alike (.atRoot reason) := fun reason _ => ⟨rfl, .same reason⟩
  refine findMismatch_related within own (fun e (resolves : m.Throughout m.Resolves e) => ?_) p e
    resolves
  obtain ⟨h, settled, below⟩ | ⟨x, looping⟩ := settled_or_looping resolves
  · exact .inl ⟨h, settled, head_settled_of_extended grown settled, below⟩
  · obtain ⟨y, looping'⟩ := exists_looping_of_extended grown looping
    refine .inr fun p => ?_
    rw [findMismatch_of_looping looping, findMismatch_of_looping looping']
    exact .some ⟨rfl, .looping x y⟩

end Extended

end Module

/-- **Growing a module is safe for validation.**  Whatever a type of a module accepts, the
same node accepts in every module that extends it.  And if every reference that the node
reaches has a definition, then both accept the same payloads, and they refuse the others at
the same place for the same reason, except perhaps for the name at which a loop is
noticed. -/
theorem findMismatch_of_extended (home home' : Instance) (e : TypeExpr) (p : Payload)
    (grown : home.module.ExtendedBy home'.module) :
    ((BoundType.mk home e).accepts p = true → (BoundType.mk home' e).accepts p = true) ∧
      (home.module.Throughout home.module.Resolves e →
        (BoundType.mk home' e).accepts p = (BoundType.mk home e).accepts p ∧
          Option.Rel Mismatch.Alike ((BoundType.mk home e).findMismatch p)
            ((BoundType.mk home' e).findMismatch p)) := by
  refine ⟨fun accepted => ?_, fun resolves => ?_⟩
  · have conforms := (BoundType.accepts_iff_conforms _ p).1 accepted
    exact (BoundType.accepts_iff_conforms _ p).2 (Module.conforms_of_extended grown conforms)
  · have alike : Option.Rel Mismatch.Alike ((BoundType.mk home e).findMismatch p)
        ((BoundType.mk home' e).findMismatch p) := Module.findMismatch_alike grown resolves p
    refine ⟨?_, alike⟩
    rw [BoundType.accepts, BoundType.accepts]
    generalize (BoundType.mk home e).findMismatch p = f, (BoundType.mk home' e).findMismatch p = f'
      at alike ⊢
    cases alike <;> rfl

namespace Example

def left : Name := ⟨"t", "Left", by decide⟩

def right : Name := ⟨"t", "Right", by decide⟩

/-- Two references that stand for each other. -/
def turns : Module :=
  ⟨.ofList [(left, .reference right), (right, .reference left)]⟩

/-- The same module with a number to which nothing refers. -/
def moreTurns : Module :=
  ⟨turns.definitions.insert ⟨"t", "Leaf", by decide⟩ (.primitive .int32)⟩

/-- A list of one number. -/
def sevens : Payload := .array [Value.ofScalar (.int32 7)]

end Example

open Example in
/-- One more definition moves the reference at which a loop is noticed, and nothing else. -/
theorem findMismatch_of_extended_turns :
    turns.ExtendedBy moreTurns ∧ turns.Throughout turns.Resolves (.array (.reference left)) ∧
      Option.Rel Mismatch.Alike
        ((BoundType.mk ⟨1, turns⟩ (.array (.reference left))).findMismatch sevens)
        ((BoundType.mk ⟨2, moreTurns⟩ (.array (.reference left))).findMismatch sevens) ∧
      turns.findMismatch (.array (.reference left)) sevens =
        some ⟨[.index 0], .indirectionCycle right⟩ ∧
      moreTurns.findMismatch (.array (.reference left)) sevens =
        some ⟨[.index 0], .indirectionCycle left⟩ := by
  have grown : turns.ExtendedBy moreTurns := Module.extendedBy_insert rfl _
  have resolves : turns.Throughout turns.Resolves (.array (.reference left)) :=
    Module.throughout_of_nodes (by decide) (by decide)
  have whole := findMismatch_of_extended ⟨1, turns⟩ ⟨2, moreTurns⟩ (.array (.reference left))
    sevens grown
  exact ⟨grown, resolves, (whole.2 resolves).2, by decide, by decide⟩

end SchemaData
