import SchemaData.Conformance
import SchemaData.Proofs.Chain
import SchemaData.Proofs.Inside

/-!
# SchemaData.Proofs.Conforms -- the check decides conformance

`Conforms m e p` says what it is for a payload to fit a node, as the least relation
that is closed under one rule for each kind of node.  No rule counts anything: a
newtype and a reference are seen through as often as it takes, and a chain that
goes on for ever has no derivation.

* `findMismatch_eq_none_iff`: the check finds nothing wrong exactly with the payloads
  that conform.  From the left, by induction on the payload and along the chain to
  the head of the node; from the right, by induction on the derivation, where the
  bound on references does no harm because of `head_of_ended`.
* `accepts_iff_conforms`: the same for a type with its module.
-/

namespace SchemaData

set_option autoImplicit false

/-- A payload fits a node of a module. -/
inductive Conforms (m : Module) : TypeExpr → Payload → Prop
  | scalar (s : Scalar) : Conforms m (.primitive s.kind) (.scalar s)
  | array {item : TypeExpr} {vs : List Value} :
      (∀ v ∈ vs, Conforms m item v.payload) → Conforms m (.array item) (.array vs)
  | map {item : TypeExpr} {es : List (String × Value)} :
      (∀ e ∈ es, Conforms m item e.2.payload) → Conforms m (.map item) (.map es)
  | absent {item : TypeExpr} : Conforms m (.optional item) (.optional none)
  | present {item : TypeExpr} {v : Value} :
      Conforms m item v.payload → Conforms m (.optional item) (.optional (some v))
  | enum {n : Name} {symbols : List String} {s : String} :
      s ∈ symbols → Conforms m (.enum n symbols) (.enum s)
  /-- As many components as fields, each of which fits the field at its position. -/
  | record {n : Name} {fields : List (Field TypeExpr)} {vs : List Value} :
      fields.length = vs.length →
      (∀ x ∈ fields.zip vs, Conforms m x.1.type x.2.payload) →
      Conforms m (.record n fields) (.record vs)
  /-- The first case with the chosen name decides. -/
  | variant {n : Name} {cases : List (Case TypeExpr)} {c : Case TypeExpr} {name : String}
      {vs : List Value} :
      cases.find? (fun c => c.name = name) = some c →
      c.parameters.length = vs.length →
      (∀ x ∈ c.parameters.zip vs, Conforms m x.1.type x.2.payload) →
      Conforms m (.variant n cases) (.variant name vs)
  | newtype {n : Name} {u : TypeExpr} {p : Payload} :
      Conforms m u p → Conforms m (.newtype n u) p
  | reference {n : Name} {target : TypeExpr} {p : Payload} :
      m.get? n = some target → Conforms m target p → Conforms m (.reference n) p

namespace Module

variable {m : Module}

/-! ## What the check looks at -/

theorem findMismatch_of_settled {e h : TypeExpr} (settled : m.head e = .settled h) (p : Payload) :
    m.findMismatch e p = m.mismatchAtHead h p := by
  rw [findMismatch, judgeHead, settled]

/-- Only a node with a head can be fitted, and then its head is. -/
theorem findMismatch_eq_none {e : TypeExpr} {p : Payload} (fits : m.findMismatch e p = none) :
    ∃ h, m.head e = .settled h ∧ m.mismatchAtHead h p = none := by
  rw [findMismatch, judgeHead] at fits
  cases end' : m.head e with
  | settled h => exact ⟨h, rfl, by simpa [end'] using fits⟩
  | undefined n => simp [end'] at fits
  | looping n => simp [end'] at fits

theorem mismatchInItems_eq_none_iff {item : TypeExpr} {vs : List Value} (i : Nat) :
    m.mismatchInItems item i vs = none ↔ ∀ v ∈ vs, m.findMismatch item v.payload = none := by
  induction vs generalizing i with
  | nil => simp [mismatchInItems]
  | cons v vs ih =>
      rw [mismatchInItems, List.forall_mem_cons, ← ih (i + 1), ← findMismatch]
      cases m.findMismatch item v.payload <;> simp

theorem mismatchInEntries_eq_none_iff {item : TypeExpr} {es : List (String × Value)} :
    m.mismatchInEntries item es = none ↔ ∀ e ∈ es, m.findMismatch item e.2.payload = none := by
  induction es with
  | nil => simp [mismatchInEntries]
  | cons e es ih =>
      rw [mismatchInEntries, List.forall_mem_cons, ← ih, ← findMismatch]
      cases m.findMismatch item e.2.payload <;> simp

theorem mismatchInComponents_eq_none_iff {fields : List (Field TypeExpr)} {vs : List Value} :
    m.mismatchInComponents fields vs = none ↔
      ∀ x ∈ fields.zip vs, m.findMismatch x.1.type x.2.payload = none := by
  induction vs generalizing fields with
  | nil => simp [mismatchInComponents]
  | cons v vs ih =>
      cases fields with
      | nil => simp [mismatchInComponents]
      | cons f fields =>
          rw [mismatchInComponents, List.zip_cons_cons, List.forall_mem_cons, ← ih, ← findMismatch]
          cases m.findMismatch f.type v.payload <;> simp

/-! ## From the check to a derivation -/

theorem conforms_of_unwrap {p : Payload} :
    (e : TypeExpr) → Conforms m e.unwrap p → Conforms m e p
  | .newtype _ u, conforms => .newtype (conforms_of_unwrap u conforms)
  | .primitive _, conforms | .array _, conforms | .map _, conforms | .optional _, conforms |
    .enum .., conforms | .record .., conforms | .variant .., conforms |
    .reference _, conforms => conforms

/-- What fits the node at which a walk settles fits the node where it began. -/
theorem conforms_of_headWithin {k : Nat} {e h : TypeExpr} {p : Payload}
    (settled : m.headWithin k e = .settled h) (conforms : Conforms m h p) : Conforms m e p := by
  apply conforms_of_unwrap
  induction k generalizing e with
  | zero =>
      obtain ⟨unwrapped, -⟩ | ⟨n, target, j, more, -⟩ := settled_cases settled
      · rwa [unwrapped]
      · omega
  | succ k ih =>
      obtain ⟨unwrapped, -⟩ | ⟨n, target, j, more, unwrapped, found, behind⟩ :=
        settled_cases settled
      · rwa [unwrapped]
      · obtain rfl := Nat.succ.inj more
        rw [unwrapped]
        exact .reference found (conforms_of_unwrap target (ih behind))

/-- A head at which the check finds nothing wrong is one of the nodes that bear a
payload, and the payload obeys the rule of that node. -/
theorem conforms_of_mismatchAtHead {h : TypeExpr} {p : Payload}
    (inside : ∀ v ∈ p.items, ∀ e, m.findMismatch e v.payload = none → Conforms m e v.payload)
    (fits : m.mismatchAtHead h p = none) : Conforms m h p := by
  have components : ∀ {fields : List (Field TypeExpr)} {vs : List Value},
      (∀ v ∈ vs, v ∈ p.items) → m.mismatchInComponents fields vs = none →
        ∀ x ∈ fields.zip vs, Conforms m x.1.type x.2.payload := by
    intro fields vs held none x member
    have inItems := held _ (List.of_mem_zip member).2
    exact inside _ inItems _ (mismatchInComponents_eq_none_iff.1 none x member)
  cases p with
  | scalar s =>
      cases h with
      | primitive q =>
          obtain rfl : q = s.kind := by simpa [mismatchAtHead] using fits
          exact .scalar s
      | _ => simp [mismatchAtHead] at fits
  | array vs =>
      cases h with
      | array item =>
          rw [mismatchAtHead, mismatchInItems_eq_none_iff] at fits
          exact .array fun v member => inside v member item (fits v member)
      | _ => simp [mismatchAtHead] at fits
  | map es =>
      cases h with
      | map item =>
          rw [mismatchAtHead, mismatchInEntries_eq_none_iff] at fits
          exact .map fun e member =>
            inside e.2 (List.mem_map_of_mem member) item (fits e member)
      | _ => simp [mismatchAtHead] at fits
  | optional content =>
      cases h with
      | optional item =>
          cases content with
          | none => exact .absent
          | some v =>
              rw [mismatchAtHead, Option.map_eq_none_iff] at fits
              exact .present (inside v List.mem_cons_self item fits)
      | _ => cases content <;> simp [mismatchAtHead] at fits
  | enum s =>
      cases h with
      | enum n symbols => exact .enum (by simpa [mismatchAtHead] using fits)
      | _ => simp [mismatchAtHead] at fits
  | record vs =>
      cases h with
      | record n fields =>
          rw [mismatchAtHead] at fits
          split at fits
          · rename_i arity
            exact .record arity (components (fun _ member => member) fits)
          · cases fits
      | _ => simp [mismatchAtHead] at fits
  | variant name vs =>
      cases h with
      | variant n cases =>
          rw [mismatchAtHead] at fits
          split at fits
          · cases fits
          · rename_i c chosen
            rw [Option.map_eq_none_iff] at fits
            split at fits
            · rename_i arity
              exact .variant chosen arity (components (fun _ member => member) fits)
            · cases fits
      | _ => simp [mismatchAtHead] at fits

theorem conforms_of_findMismatch (p : Payload) :
    ∀ e, m.findMismatch e p = none → Conforms m e p := by
  induction p using Payload.inductionOnItems with
  | step p inside =>
      intro e fits
      obtain ⟨h, settled, none⟩ := findMismatch_eq_none fits
      exact conforms_of_headWithin settled (conforms_of_mismatchAtHead inside none)

/-! ## From a derivation to the check -/

theorem findMismatch_of_direct {e : TypeExpr} (direct : e.isIndirect = false) (p : Payload) :
    m.findMismatch e p = m.mismatchAtHead e p :=
  findMismatch_of_settled (head_of_direct direct) p

theorem findMismatch_of_conforms {e : TypeExpr} {p : Payload} (conforms : Conforms m e p) :
    m.findMismatch e p = none := by
  induction conforms with
  | scalar s =>
      rw [findMismatch_of_direct rfl, mismatchAtHead, if_pos rfl]
  | array _ ih =>
      rw [findMismatch_of_direct rfl, mismatchAtHead, mismatchInItems_eq_none_iff]
      exact ih
  | map _ ih =>
      rw [findMismatch_of_direct rfl, mismatchAtHead, mismatchInEntries_eq_none_iff]
      exact ih
  | absent => rw [findMismatch_of_direct rfl, mismatchAtHead]
  | present _ ih =>
      rw [findMismatch_of_direct rfl, mismatchAtHead, Option.map_eq_none_iff]
      exact ih
  | enum member =>
      rw [findMismatch_of_direct rfl, mismatchAtHead, if_pos member]
  | record arity _ ih =>
      rw [findMismatch_of_direct rfl, mismatchAtHead, if_pos arity]
      exact mismatchInComponents_eq_none_iff.2 ih
  | variant chosen arity _ ih =>
      rw [findMismatch_of_direct rfl, mismatchAtHead]
      simp only [chosen, if_pos arity, Option.map_eq_none_iff]
      exact mismatchInComponents_eq_none_iff.2 ih
  | newtype _ ih =>
      obtain ⟨h, settled, none⟩ := findMismatch_eq_none ih
      rwa [findMismatch_of_settled ((head_newtype _ _).trans settled)]
  | reference found _ ih =>
      obtain ⟨h, settled, none⟩ := findMismatch_eq_none ih
      rwa [findMismatch_of_settled ((head_reference_settled_iff found).2 settled)]

/-- **The check finds nothing wrong exactly with the payloads that conform.** -/
theorem findMismatch_eq_none_iff {e : TypeExpr} {p : Payload} :
    m.findMismatch e p = none ↔ Conforms m e p :=
  ⟨conforms_of_findMismatch p e, findMismatch_of_conforms⟩

end Module

namespace BoundType

theorem accepts_eq_true_iff {t : BoundType} {p : Payload} :
    t.accepts p = true ↔ t.home.module.findMismatch t.expr p = none :=
  Option.isNone_iff_eq_none

/-- **A type accepts exactly the payloads that conform to it.** -/
theorem accepts_iff_conforms (t : BoundType) (p : Payload) :
    t.accepts p = true ↔ Conforms t.home.module t.expr p :=
  accepts_eq_true_iff.trans Module.findMismatch_eq_none_iff

end BoundType

end SchemaData
