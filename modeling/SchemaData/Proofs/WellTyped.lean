import SchemaData.Proofs.Conforms
import SchemaData.Proofs.Under
import SchemaData.Random.Scripted

/-!
# SchemaData.Proofs.WellTyped -- drawn values keep the claims of their types

Draws without overrides follow the type.  Two properties of every drawn value come from
that; `soundRules` says how each step of a draw keeps them.

* `Labelled`: the value is labelled with the first node behind the references of its
  type, and everything inside it is bound to the same instance.
* `Fits`: the value and everything inside it conform to the types that they claim,
  provided that the cases of every variant on the way have different names.  Of two
  cases with one name the check takes the first and a draw may take the second, so
  the condition is needed (`repeated_case_drawn`).

`drawn_sound` states both of a whole draw.
-/

namespace SchemaData

set_option autoImplicit false

variable {σ : Type}

/-! ## Labels -/

/-- The first node that is no reference, when references are followed from a node. -/
inductive ResolvesTo (m : Module) : TypeExpr → TypeExpr → Prop
  | here {e : TypeExpr} : e.shape ≠ .reference → ResolvesTo m e e
  | there {n : Name} {target e : TypeExpr} :
      m.get? n = some target → ResolvesTo m target e → ResolvesTo m (.reference n) e

/-- A value has the label of a type, and all labels inside it are of the same
instance. -/
structure Labelled (t : BoundType) (v : Value) : Prop where
  home : v.type.home = t.home
  resolved : ResolvesTo t.home.module t.expr v.type.expr
  inside : ∀ w, v.payload.Nested w → w.type.home = t.home

theorem conforms_of_resolvesTo {m : Module} {e e' : TypeExpr} {p : Payload}
    (resolved : ResolvesTo m e e') (conforms : Conforms m e p) : Conforms m e' p := by
  induction resolved with
  | here => exact conforms
  | there found _ ih =>
      cases conforms with
      | reference found' behind =>
          rw [found] at found'
          cases found'
          exact ih behind

/-- A labelled value keeps its own claim when its payload fits the type. -/
theorem Labelled.conforms {t : BoundType} {v : Value} (labelled : Labelled t v)
    (fits : Conforms t.home.module t.expr v.payload) : v.conforms = true := by
  have own := conforms_of_resolvesTo labelled.resolved fits
  rw [Value.conforms, BoundType.accepts_eq_true_iff, labelled.home]
  exact Module.findMismatch_of_conforms own

/-! ## Distinct cases -/

/-- No two cases of a variant have one name. -/
def TypeExpr.CasesDistinct : TypeExpr → Prop
  | .variant _ cases => (cases.map (·.name)).Nodup
  | _ => True

instance : DecidablePred TypeExpr.CasesDistinct
  | .variant _ cases => inferInstanceAs (Decidable (cases.map (·.name)).Nodup)
  | .primitive _ | .array _ | .map _ | .optional _ | .enum .. | .record .. | .newtype .. |
    .reference _ => inferInstanceAs (Decidable True)

theorem find?_name {cases : List (Case TypeExpr)} {c : Case TypeExpr}
    (distinct : (cases.map (·.name)).Nodup) (member : c ∈ cases) :
    cases.find? (fun d => d.name = c.name) = some c := by
  induction cases with
  | nil => cases member
  | cons d cases ih =>
      obtain ⟨fresh, distinct⟩ := List.nodup_cons.1 distinct
      rcases List.mem_cons.1 member with rfl | member
      · simp
      · have other : d.name ≠ c.name := fun same =>
          fresh (List.mem_map.2 ⟨c, member, same.symm⟩)
        rw [List.find?_cons_of_neg (by simpa using other), ih distinct member]

theorem conforms_of_built {m : Module} {e : TypeExpr} {p : Payload} (distinct : e.CasesDistinct)
    (built : Built (fun c v => Conforms m c v.payload) e p) : Conforms m e p := by
  cases built with
  | scalar s => exact .scalar s
  | array each => exact .array each
  | map each => exact .map each
  | absent => exact .absent
  | present holds => exact .present holds
  | enum member => exact .enum member
  | record arity each => exact .record arity each
  | variant chosen arity each => exact .variant (find?_name distinct chosen) arity each

/-- What is drawn for a type fits it, and what is inside keeps the claims of its own. -/
structure Fits (t : BoundType) (v : Value) : Prop where
  conforms : Conforms t.home.module t.expr v.payload
  inside : ∀ w, v.payload.Nested w → w.conforms = true

/-- What every drawn value satisfies: labels in any case, conformance where the check
and the draw mean the same case by a name. -/
structure Sound (t : BoundType) (v : Value) : Prop where
  labelled : Labelled t v
  fits : t.home.module.Throughout TypeExpr.CasesDistinct t.expr → Fits t v

/-- The steps of a draw without overrides are sound. -/
theorem soundRules (home : Instance) :
    DrawRules (some (∅ : Overrides σ)) home (fun _ _ _ => True) (fun e v => Sound ⟨home, e⟩ v)
      fun _ => True where
  children _ _ _ _ := trivial
  underlying _ _ := trivial
  definition _ _ _ _ := trivial
  payload {_ _ e p} _ _ direct built := by
    have noReference : e.shape ≠ .reference := by
      cases e with
      | reference n => cases direct
      | _ => nofun
    refine ⟨⟨rfl, .here noReference, Payload.forall_nested fun v member => ?_⟩, fun distinct => ?_⟩
    · obtain ⟨c, -, sound⟩ := built.exists_child v member
      exact ⟨sound.labelled.home, sound.labelled.inside⟩
    · have below : ∀ c ∈ e.children, home.module.Throughout TypeExpr.CasesDistinct c :=
        fun c child => distinct.next (.child child)
      refine ⟨?_, Payload.forall_nested fun v member => ?_⟩
      · exact conforms_of_built distinct.here
          (built.imp fun c child v _ sound => (sound.fits (below c child)).conforms)
      · obtain ⟨c, child, sound⟩ := built.exists_child v member
        have fits := sound.fits (below c child)
        exact ⟨sound.labelled.conforms fits.conforms, fits.inside⟩
  newtype := by
    rintro n u v ⟨labelled, fits⟩
    refine ⟨⟨rfl, .here nofun, labelled.inside⟩, fun distinct => ?_⟩
    have below := fits (distinct.next (.child List.mem_cons_self))
    exact ⟨.newtype below.conforms, below.inside⟩
  reference := by
    rintro n target v found ⟨labelled, fits⟩
    refine ⟨⟨labelled.home, .there found labelled.resolved, labelled.inside⟩, fun distinct => ?_⟩
    have below := fits (distinct.next (.definition found))
    exact ⟨.reference found below.conforms, below.inside⟩
  choice _ _ _ := trivial
  undefined _ _ := trivial
  cycle _ _ _ := trivial

variable [RandomSource σ]

theorem sound_of_drawn (fuel hops size : Nat) (skip : Option Name) (t : BoundType) (s : σ) :
    (drawValue (some ∅) fuel hops skip t size s).Meets (Sound t) fun _ => True :=
  (soundRules t.home).meets (callsEnsure_empty _ _ _ _ _) (Nat.le_refl fuel) hops skip t.expr
    trivial size s

/-- **Drawn values are sound.**  A value drawn without overrides has the label of its
type and holds only values of the same instance; and if the cases of every variant
that the type leads to have different names, its payload fits the type, and it and
everything inside it keep the claims of their types. -/
theorem drawn_sound (t : BoundType) (ctx : Context σ) (s s' : σ) (v : Value)
    (drawn : (ValueGenerator.plain t).generator ctx s = .value v s') :
    (v.type.home = t.home ∧ ResolvesTo t.home.module t.expr v.type.expr ∧
        ∀ w, v.payload.Nested w → w.type.home = t.home) ∧
      (t.home.module.Throughout TypeExpr.CasesDistinct t.expr →
        t.accepts v.payload = true ∧ v.conforms = true ∧
          ∀ w, v.payload.Nested w → w.conforms = true) := by
  have sound := sound_of_drawn ctx.fuel 0 ctx.size none t s
  change drawValue (some ∅) ctx.fuel 0 none t ctx.size s = .value v s' at drawn
  rw [drawn] at sound
  obtain ⟨labelled, fits⟩ := sound
  refine ⟨⟨labelled.home, labelled.resolved, labelled.inside⟩, fun distinct => ?_⟩
  have below := fits distinct
  refine ⟨?_, labelled.conforms below.conforms, below.inside⟩
  exact BoundType.accepts_eq_true_iff.2 (Module.findMismatch_of_conforms below.conforms)

/-- Chains of truth values: each link is behind a newtype and a reference. -/
def Example.chain : BoundType :=
  ⟨⟨1, ⟨.ofList [
      (⟨"t", "Chain", by decide⟩,
        .newtype ⟨"t", "Chain", by decide⟩ (.reference ⟨"t", "Link", by decide⟩)),
      (⟨"t", "Link", by decide⟩,
        .variant ⟨"t", "Link", by decide⟩
          [⟨"End", []⟩,
            ⟨"More", [⟨"flag", .primitive .bool⟩,
              ⟨"rest", .reference ⟨"t", "Chain", by decide⟩⟩]⟩])]⟩⟩,
    .reference ⟨"t", "Chain", by decide⟩⟩

/-- A chain of two links. -/
def Example.twoLinks : Value :=
  let label := Example.chain.child
    (.newtype ⟨"t", "Chain", by decide⟩ (.reference ⟨"t", "Link", by decide⟩))
  ⟨label, .variant "More"
    [⟨label.child (.primitive .bool), .scalar (.bool true)⟩, ⟨label, .variant "End" []⟩]⟩

/-- Both parts, for a value drawn through newtypes and references. -/
theorem drawn_sound_twoLinks :
    (ValueGenerator.plain Example.chain).generator (Context.start 9 0 none)
        (Scripted.start [0x80000000, 0x80000000, 0] 0) = .value Example.twoLinks ⟨[], 0, 3⟩ ∧
      Example.chain.accepts Example.twoLinks.payload = true ∧
      Example.twoLinks.conforms = true ∧
      ∀ w, Example.twoLinks.payload.Nested w →
        w.type.home = Example.chain.home ∧ w.conforms = true := by
  have drawn : (ValueGenerator.plain Example.chain).generator (Context.start 9 0 none)
      (Scripted.start [0x80000000, 0x80000000, 0] 0) = .value Example.twoLinks ⟨[], 0, 3⟩ := rfl
  have sound := drawn_sound _ _ _ _ _ drawn
  have fits := sound.2 (Module.throughout_of_nodes (by decide) (by decide))
  exact ⟨drawn, fits.1, fits.2.1, fun w inside => ⟨sound.1.2.2 w inside, fits.2.2 w inside⟩⟩

/-- A variant with two cases of one name, of which only the second has a parameter. -/
def Example.repeatedCase : BoundType :=
  ⟨.base, .variant ⟨"t", "V", by decide⟩ [⟨"A", []⟩, ⟨"A", [⟨"x", .primitive .bool⟩]⟩]⟩

/-- The condition on cases is needed: a draw takes the second of them, and the check
holds the value against the first. -/
theorem repeated_case_drawn :
    ∃ v s', (ValueGenerator.plain Example.repeatedCase).generator (Context.start 9 0 none)
        (Scripted.start [0x80000000, 0] 0) = .value v s' ∧
      Example.repeatedCase.accepts v.payload = false :=
  ⟨_, _, rfl, by decide⟩

end SchemaData
