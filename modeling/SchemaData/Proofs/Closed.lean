import SchemaData.Proofs.Guarded
import SchemaData.Proofs.Judged
import SchemaData.Proofs.Under

/-!
# SchemaData.Proofs.Closed -- what can still fail in a closed schema

In a well-formed module every reference has a definition and every choice an alternative.
One fault is left, because no check of a definition by itself can see it: a chain that goes
on for ever.  `failed_of_closed` says that it is the only one, also for recursive schemas,
for types that pass the same checks:

* the check reports a name without a definition nowhere inside a payload, and
* a draw fails with a loop or not at all, as long as the overrides do.

Both walks keep the same invariant: every node that the type leads to is one that a draw
admits (`Module.Admits`).
-/

namespace SchemaData

set_option autoImplicit false

namespace Module

variable {m : Module} {e : TypeExpr}

theorem throughout_resolves (admits : m.Throughout m.Admits e) : m.Throughout m.Resolves e := by
  intro e' reaches
  cases e' with
  | reference n => exact (admits _ reaches).2 n rfl
  | _ => trivial

/-- Where every reference has a definition, none is reported for the lack of one. -/
theorem reason_ne_of_resolves (resolves : m.Throughout m.Resolves e) {p : Payload} {f : Mismatch}
    (found : m.findMismatch e p = some f) (x : Name) : f.reason ≠ .unresolvedReference x := by
  have own : ∀ reason : MismatchReason, reason.Own → reason ≠ .unresolvedReference x := by
    rintro _ own rfl
    exact own
  have related : Option.Rel (fun f (_ : Mismatch) => f.reason ≠ .unresolvedReference x)
      (m.findMismatch e p) (m.findMismatch e p) := by
    refine findMismatch_related (fun _ _ _ => id) own
      (fun e (resolves : m.Throughout m.Resolves e) => ?_) p e resolves
    obtain ⟨h, settled, below⟩ | ⟨y, looping⟩ := settled_or_looping resolves
    · exact .inl ⟨h, settled, settled, below⟩
    · refine .inr fun p => ?_
      rw [findMismatch_of_looping looping]
      exact .some nofun
  rw [found] at related
  cases related with
  | some other => exact other

end Module

variable {σ : Type}

/-- A draw that comes only to nodes that it admits can fail for one reason alone. -/
theorem admittingRules (table : Option (Overrides σ)) (home : Instance) :
    DrawRules table home (fun _ _ => home.module.Throughout home.module.Admits)
      (fun _ _ => True) IsCycle where
  toDescends := descends_throughout table home _
  payload _ _ _ _ := trivial
  newtype _ := trivial
  reference _ _ := trivial
  choice _ admits refused := absurd admits.here.1 refused
  undefined {_ _ n} admits missing := by
    obtain ⟨target, found⟩ := (home.module.contains_iff n).1 (admits.here.2 n rfl)
    rw [missing] at found
    cases found
  cycle {_ _ n _} _ _ _ := ⟨n, rfl⟩

variable [RandomSource σ]

/-- **In closed schemas only a loop can fail.**  Let a module be well formed, and let a type
pass its own checks and refer to definitions only.  Then the check reports no reference for
the lack of a definition, whatever the payload and wherever inside it.  And a draw under a
table whose entries never fail, or only with a loop, fails only with a loop. -/
theorem failed_of_closed (t : BoundType)
    (wellFormed : t.home.module.checkWellFormed = .ok ())
    (sound : t.expr.checkStructure = .ok ())
    (closed : ∀ n ∈ t.expr.references, t.home.module.contains n = true) :
    (∀ p f, t.findMismatch p = some f → ∀ x, f.reason ≠ .unresolvedReference x) ∧
      ∀ table : Overrides σ,
        (∀ n g, table.get? n = some g → ∀ fuel size s e s',
          g (Context.start fuel size (some table)) s = .failed e s' → IsCycle e) →
        ∀ (ctx : Context σ) (s : σ) e s',
          (ValueGenerator.mk table t).generator ctx s = .failed e s' → IsCycle e := by
  have admits := Module.throughout_admits wellFormed sound closed
  refine ⟨fun p f found => Module.reason_ne_of_resolves (Module.throughout_resolves admits) found,
    fun table entries ctx s e s' failed => ?_⟩
  have calls : CallsEnsure (some table) t.home ctx.fuel
      (fun _ _ => t.home.module.Throughout t.home.module.Admits) (fun _ _ => True) IsCycle := by
    intro fuel _ hops skip e g _ called size
    obtain ⟨n, -, found⟩ := exists_get?_of_overrideOf called
    exact Generator.ensures_of_outcomes (fun _ _ _ _ => trivial)
      fun s e s' => entries n g found fuel size s e s'
  have meets := (admittingRules (some table) t.home).meets calls (Nat.le_refl _) 0 none t.expr
    admits ctx.size s
  change drawValue (some table) ctx.fuel 0 none t ctx.size s = .failed e s' at failed
  rw [failed] at meets
  exact meets

namespace Example

def ring : Name := ⟨"t", "Ring", by decide⟩

/-- A tree, whose nodes hold trees, beside a newtype that stands for itself. -/
def tangle : BoundType :=
  ⟨⟨1, ⟨.ofList [
      (node, .record node [⟨"label", .primitive .int32⟩, ⟨"below", .array (.reference node)⟩]),
      (ring, .newtype ring (.reference ring))]⟩⟩,
    .record ⟨"t", "Tangle", by decide⟩ [⟨"tree", .reference node⟩, ⟨"ring", .reference ring⟩]⟩

/-- Each tree is a single node. -/
def bareTrees : Overrides Padded :=
  .ofNames [node] fun _ =>
    pure ⟨.ofPrimitive .bool, .record [Value.ofScalar (.int32 7), ⟨.ofPrimitive .bool, .array []⟩]⟩

end Example

open Example in
/-- The tree is drawn by its override, and the draw fails at the newtype. -/
theorem failed_of_closed_tangle :
    (∀ p f, tangle.findMismatch p = some f → ∀ x, f.reason ≠ .unresolvedReference x) ∧
      ∃ e s', (ValueGenerator.mk bareTrees tangle).generator (Context.start 9 0 none) ⟨[]⟩ =
        .failed e s' ∧ IsCycle e := by
  have entries : ∀ n g, bareTrees.get? n = some g → ∀ fuel size s e s',
      g (Context.start fuel size (some bareTrees)) s = .failed e s' → IsCycle e := by
    intro n g found fuel size s e s' failed
    rw [bareTrees, Overrides.get?_ofNames] at found
    split at found
    · cases found
      cases failed
    · cases found
  have drawn : (ValueGenerator.mk bareTrees tangle).generator (Context.start 9 0 none) ⟨[]⟩ =
      .failed (.indirectionCycle ring) ⟨[]⟩ := rfl
  have whole := failed_of_closed (σ := Padded) tangle (by cbv) (by cbv) (by decide)
  exact ⟨whole.1, _, _, drawn, whole.2 bareTrees entries _ _ _ _ drawn⟩

end SchemaData
