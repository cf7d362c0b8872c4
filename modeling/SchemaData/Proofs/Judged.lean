import SchemaData.Proofs.Indirection
import SchemaData.Proofs.Paired

/-!
# SchemaData.Proofs.Judged -- two checks side by side

The check of a payload against a node looks at the payload, at the node and, through the
heads of nodes, at the module.  This module compares what two checks report, perhaps in
two modules and of two payloads, in terms of a relation `R` of mismatches.  Two things are
asked of `R`: it relates a reason that is a node's own to itself, and it does not mind one
more step of a path.

* `mismatchAtHead_related`: two checks of one node report the same, up to `R`, when the
  checks of its children do, of the values at the same places.
* `findMismatch_related`: so two checks of one payload report the same, up to `R`, where
  the two modules give the nodes below the same heads, or else faults that `R` relates.

`settled_or_looping` says what heads there are where every reference that a node reaches
has a definition.
-/

namespace SchemaData

set_option autoImplicit false

/-- A reason that does not blame a chain of references, but the node at its end. -/
def MismatchReason.Own : MismatchReason → Prop
  | unresolvedReference _ | indirectionCycle _ => False
  | shape .. | unknownSymbol _ | unknownCase _ | arity .. => True

namespace Module

variable {m m' : Module} {R : Mismatch → Mismatch → Prop} {S : Value → Value → Prop}
  (within : ∀ s f f', R f f' → R (f.within s) (f'.within s))

include within

theorem within_related {f f' : Option Mismatch} (related : Option.Rel R f f') (s : Segment) :
    Option.Rel R (f.map (.within s)) (f'.map (.within s)) := by
  cases related with
  | some found => exact .some (within _ _ _ found)
  | none => exact .none

/-! ## Lists of values -/

theorem mismatchInItems_related {item : TypeExpr} {vs ws : List Value}
    (paired : List.Forall₂ S vs ws)
    (inside : ∀ v w, S v w →
      Option.Rel R (m.findMismatch item v.payload) (m'.findMismatch item w.payload)) (i : Nat) :
    Option.Rel R (m.mismatchInItems item i vs) (m'.mismatchInItems item i ws) := by
  induction paired generalizing i with
  | nil => exact .none
  | @cons v w vs ws related _ ih =>
      have here := inside v w related
      rw [mismatchInItems, mismatchInItems, ← findMismatch, ← findMismatch]
      generalize m.findMismatch item v.payload = f, m'.findMismatch item w.payload = f' at here ⊢
      cases here with
      | some found => exact .some (within _ _ _ found)
      | none => exact ih (i + 1)

theorem mismatchInEntries_related {item : TypeExpr} {es fs : List (String × Value)}
    (keys : es.map Prod.fst = fs.map Prod.fst)
    (paired : List.Forall₂ S (es.map Prod.snd) (fs.map Prod.snd))
    (inside : ∀ v w, S v w →
      Option.Rel R (m.findMismatch item v.payload) (m'.findMismatch item w.payload)) :
    Option.Rel R (m.mismatchInEntries item es) (m'.mismatchInEntries item fs) := by
  induction es generalizing fs with
  | nil =>
      obtain rfl := List.map_eq_nil_iff.1 keys.symm
      exact .none
  | cons e es ih =>
      obtain ⟨f, fs, rfl, same, keys⟩ := List.map_eq_cons_iff.1 keys.symm
      obtain ⟨related, paired⟩ := List.forall₂_cons.1 paired
      have here := inside e.2 f.2 related
      rw [mismatchInEntries, mismatchInEntries, ← findMismatch, ← findMismatch]
      generalize m.findMismatch item e.2.payload = f, m'.findMismatch item _ = f' at here ⊢
      cases here with
      | some found =>
          rw [same]
          exact .some (within _ _ _ found)
      | none => exact ih keys.symm paired

theorem mismatchInComponents_related {fields : List (Field TypeExpr)} {vs ws : List Value}
    (paired : List.Forall₂ S vs ws)
    (inside : ∀ f ∈ fields, ∀ v w, S v w →
      Option.Rel R (m.findMismatch f.type v.payload) (m'.findMismatch f.type w.payload)) :
    Option.Rel R (m.mismatchInComponents fields vs) (m'.mismatchInComponents fields ws) := by
  induction paired generalizing fields with
  | nil => exact .none
  | @cons v w vs ws related _ ih =>
      cases fields with
      | nil => exact .none
      | cons f fields =>
          obtain ⟨first, rest⟩ := List.forall_mem_cons.1 inside
          have here := first v w related
          rw [mismatchInComponents, mismatchInComponents, ← findMismatch, ← findMismatch]
          generalize m.findMismatch f.type v.payload = f, m'.findMismatch f.type w.payload = f'
            at here ⊢
          cases here with
          | some found => exact .some (within _ _ _ found)
          | none => exact ih rest

variable (own : ∀ reason, reason.Own → R (.atRoot reason) (.atRoot reason))

include own

/-- Components are counted before they are looked at. -/
theorem counted_related {fields : List (Field TypeExpr)} {vs ws : List Value}
    (paired : List.Forall₂ S vs ws)
    (inside : ∀ f ∈ fields, ∀ v w, S v w →
      Option.Rel R (m.findMismatch f.type v.payload) (m'.findMismatch f.type w.payload)) :
    Option.Rel R
      (if fields.length = vs.length then m.mismatchInComponents fields vs
        else some (.atRoot (.arity fields.length vs.length)))
      (if fields.length = ws.length then m'.mismatchInComponents fields ws
        else some (.atRoot (.arity fields.length ws.length))) := by
  rw [paired.length_eq]
  split
  · exact mismatchInComponents_related within paired inside
  · exact .some (own _ trivial)

/-- **What two checks report of one node.** -/
theorem mismatchAtHead_related {h : TypeExpr} {p q : Payload} (paired : p.Paired S q)
    (inside : ∀ c ∈ h.children, ∀ v w, S v w →
      Option.Rel R (m.findMismatch c v.payload) (m'.findMismatch c w.payload)) :
    Option.Rel R (m.mismatchAtHead h p) (m'.mismatchAtHead h q) := by
  have misshapen : ∀ s s',
      Option.Rel R (some (.atRoot (.shape s s'))) (some (.atRoot (.shape s s'))) :=
    fun s s' => .some (own _ trivial)
  cases paired with
  | scalar s =>
      cases h with
      | primitive q =>
          rw [mismatchAtHead, mismatchAtHead]
          split
          · exact .none
          · exact misshapen _ _
      | _ => exact misshapen _ _
  | array paired =>
      cases h with
      | array item =>
          exact mismatchInItems_related within paired (inside item List.mem_cons_self) 0
      | _ => exact misshapen _ _
  | map keys paired =>
      cases h with
      | map item =>
          exact mismatchInEntries_related within keys paired (inside item List.mem_cons_self)
      | _ => exact misshapen _ _
  | absent =>
      cases h with
      | optional item => exact .none
      | _ => exact misshapen _ _
  | @present v w related =>
      cases h with
      | optional item =>
          have here := inside item List.mem_cons_self v w related
          exact within_related within here .content
      | _ => exact misshapen _ _
  | enum s =>
      cases h with
      | enum n symbols =>
          rw [mismatchAtHead, mismatchAtHead]
          split
          · exact .none
          · exact .some (own _ trivial)
      | _ => exact misshapen _ _
  | record paired =>
      cases h with
      | record n fields =>
          exact counted_related within own paired fun f member =>
            inside f.type (List.mem_map_of_mem member)
      | _ => exact misshapen _ _
  | @variant name vs ws paired =>
      cases h with
      | variant n cases =>
          rw [mismatchAtHead, mismatchAtHead]
          cases chosen : cases.find? fun c => c.name = name with
          | none => exact .some (own _ trivial)
          | some c =>
              have declared := List.mem_of_find?_eq_some chosen
              exact within_related within (counted_related within own paired fun f member =>
                inside f.type (TypeExpr.mem_children_of_parameter declared member)) (.case name)
      | _ => exact misshapen _ _

/-- **What two checks report of one payload.**  Each node below has the same head in both
modules, or both of them report a fault of it. -/
theorem findMismatch_related {Good : TypeExpr → Prop}
    (heads : ∀ e, Good e →
      (∃ h, m.head e = .settled h ∧ m'.head e = .settled h ∧ ∀ c ∈ h.children, Good c) ∨
        ∀ p, Option.Rel R (m.findMismatch e p) (m'.findMismatch e p))
    (p : Payload) : ∀ e, Good e → Option.Rel R (m.findMismatch e p) (m'.findMismatch e p) := by
  induction p using Payload.inductionOnItems with
  | step p ih =>
      intro e good
      obtain ⟨h, settled, settled', below⟩ | faults := heads e good
      · rw [findMismatch_of_settled settled, findMismatch_of_settled settled']
        have paired : p.Paired (fun v w => v ∈ p.items ∧ v = w) p :=
          Payload.paired_refl p fun v member => ⟨member, rfl⟩
        refine mismatchAtHead_related within own paired ?_
        rintro c child v _ ⟨member, rfl⟩
        exact ih v member c (below c child)
      · exact faults p

omit within own

/-! ## References with definitions -/

/-- A node is no reference without a definition. -/
def Resolves (m : Module) : TypeExpr → Prop
  | .reference n => m.contains n = true
  | _ => True

instance (m : Module) : DecidablePred m.Resolves
  | .reference n => inferInstanceAs (Decidable (m.contains n = true))
  | .primitive _ | .array _ | .map _ | .optional _ | .enum .. | .record .. | .variant .. |
    .newtype .. => inferInstanceAs (Decidable True)

/-- Where every reference has a definition, a chain ends at a payload or not at all. -/
theorem settled_or_looping {e : TypeExpr} (resolves : m.Throughout m.Resolves e) :
    (∃ h, m.head e = .settled h ∧ ∀ c ∈ h.children, m.Throughout m.Resolves c) ∨
      ∃ x, m.head e = .looping x := by
  have reaches := m.reaches_head e
  cases answer : m.head e with
  | settled h =>
      rw [answer] at reaches
      exact .inl ⟨h, rfl, fun c child => (resolves.later reaches).next (.child child)⟩
  | undefined x =>
      rw [answer] at reaches
      obtain ⟨target, found⟩ := (m.contains_iff x).1 (resolves _ reaches)
      rw [missing_of_undefined answer] at found
      cases found
  | looping x => exact .inr ⟨x, rfl⟩

end Module

end SchemaData
