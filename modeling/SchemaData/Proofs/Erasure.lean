import SchemaData.Proofs.Judged

/-!
# SchemaData.Proofs.Erasure -- the labels inside a payload play no part

Every value inside a payload carries a type of its own, which may be any type of any
instance.  The check never reads one: it takes the type of a component from the node that is
judged.

* `Payload.paired_of_erased`: two payloads with one erasure have the same form, and the
  values at the same places have one erasure again.
* `Module.findMismatch_of_erased`: so the check reports the same of both, by induction on the
  first payload and with the equality of reports as the relation of its items.

`findMismatch_of_erased_labels` adds what the check takes from a type: its node, and the
definition of each name in its module.
-/

namespace SchemaData

set_option autoImplicit false

namespace Payload

variable {S : Value → Value → Prop}

theorem forall₂_of_erased {vs ws : List Value}
    (each : ∀ v ∈ vs, ∀ w, v.payload.erased = w.payload.erased → S v w)
    (same : vs.map Value.erased = ws.map Value.erased) : List.Forall₂ S vs ws := by
  induction vs generalizing ws with
  | nil =>
      obtain rfl := List.map_eq_nil_iff.1 same.symm
      exact .nil
  | cons v vs ih =>
      obtain ⟨w, ws, rfl, first, rest⟩ := List.map_eq_cons_iff.1 same.symm
      obtain ⟨here, below⟩ := List.forall_mem_cons.1 each
      have payloads : w.payload.erased = v.payload.erased := congrArg Typed.payload first
      exact .cons (here w payloads.symm) (ih below rest.symm)

/-- Payloads with one erasure have one form, and so have the values inside them. -/
theorem paired_of_erased {p q : Payload}
    (each : ∀ v ∈ p.items, ∀ w, v.payload.erased = w.payload.erased → S v w)
    (same : p.erased = q.erased) : p.Paired S q := by
  cases p with
  | scalar s =>
      cases q with
      | scalar s' =>
          obtain rfl : s = s' := by simpa [erased] using same
          exact .scalar s
      | _ => simp [erased] at same
  | array vs =>
      cases q with
      | array ws =>
          rw [erased_array, erased_array] at same
          exact .array (forall₂_of_erased each (Payload.array.inj same))
      | _ => simp [erased] at same
  | map es =>
      cases q with
      | map fs =>
          rw [erased_map, erased_map] at same
          have entries := Payload.map.inj same
          have keys := congrArg (List.map Prod.fst) entries
          have values := congrArg (List.map Prod.snd) entries
          simp only [List.map_map] at keys values
          refine .map keys (forall₂_of_erased each ?_)
          rw [List.map_map, List.map_map]
          exact values
      | _ => simp [erased] at same
  | optional content =>
      cases q with
      | optional content' =>
          rw [erased_optional, erased_optional] at same
          have contents := Payload.optional.inj same
          cases content with
          | none =>
              obtain rfl : content' = none := by simpa using contents.symm
              exact .absent
          | some v =>
              obtain ⟨w, rfl, labelled⟩ := Option.map_eq_some_iff.1 contents.symm
              have payloads : w.payload.erased = v.payload.erased :=
                congrArg Typed.payload labelled
              exact .present (each v List.mem_cons_self w payloads.symm)
      | _ => simp [erased] at same
  | enum s =>
      cases q with
      | enum s' =>
          obtain rfl : s = s' := by simpa [erased] using same
          exact .enum s
      | _ => simp [erased] at same
  | record vs =>
      cases q with
      | record ws =>
          rw [erased_record, erased_record] at same
          exact .record (forall₂_of_erased each (Payload.record.inj same))
      | _ => simp [erased] at same
  | variant c vs =>
      cases q with
      | variant c' ws =>
          rw [erased_variant, erased_variant] at same
          obtain ⟨rfl, components⟩ := Payload.variant.inj same
          exact .variant c (forall₂_of_erased each components)
      | _ => simp [erased] at same

end Payload

/-- **The check does not look at the labels inside a payload.** -/
theorem Module.findMismatch_of_erased {m : Module} (p : Payload) :
    ∀ (q : Payload) (e : TypeExpr), p.erased = q.erased →
      m.findMismatch e p = m.findMismatch e q := by
  induction p using Payload.inductionOnItems with
  | step p ih =>
      intro q e same
      cases answer : m.head e with
      | settled h =>
          rw [findMismatch_of_settled answer, findMismatch_of_settled answer]
          -- The items are compared for every node, so the pairing does not name the child.
          have paired : p.Paired
              (fun v w => ∀ c, m.findMismatch c v.payload = m.findMismatch c w.payload) q :=
            Payload.paired_of_erased (fun v member w alike c => ih v member w.payload c alike) same
          have reports : Option.Rel Eq (m.mismatchAtHead h p) (m.mismatchAtHead h q) := by
            refine mismatchAtHead_related (fun s f f' found => congrArg _ found)
              (fun _ _ => rfl) paired fun c _ v w alike => ?_
            rw [alike c]
            cases m.findMismatch c w.payload with
            | none => exact .none
            | some f => exact .some rfl
          generalize m.mismatchAtHead h p = f, m.mismatchAtHead h q = f' at reports ⊢
          cases reports with
          | none => rfl
          | some found => rw [found]
      | undefined x => rw [findMismatch_of_undefined answer, findMismatch_of_undefined answer]
      | looping x => rw [findMismatch_of_looping answer, findMismatch_of_looping answer]

/-- **Labels never influence validation.**  Two payloads that are equal once the type of
every value inside them is erased, at every depth, are refused at the same place for the same
reason, or both accepted; and the same holds of the two types, if they have one node and each
name has the same definition in both modules. -/
theorem findMismatch_of_erased_labels (t t' : BoundType) (p q : Payload)
    (definitions : ∀ n, t.home.module.get? n = t'.home.module.get? n) (node : t.expr = t'.expr)
    (same : p.erased = q.erased) :
    t.findMismatch p = t'.findMismatch q ∧ t.accepts p = t'.accepts q := by
  have modules : t.home.module = t'.home.module := by
    have tables := NameMap.ext_get? definitions
    generalize t.home.module = m, t'.home.module = m' at tables ⊢
    cases m
    cases m'
    exact congrArg Module.mk tables
  have reports : t.findMismatch p = t'.findMismatch q := by
    rw [BoundType.findMismatch, BoundType.findMismatch, modules, node]
    exact Module.findMismatch_of_erased p q t'.expr same
  exact ⟨reports, by rw [BoundType.accepts, BoundType.accepts, reports]⟩

namespace Example

def order : Name := ⟨"shop", "Order", by decide⟩

def line : Name := ⟨"shop", "Line", by decide⟩

def orderNode : TypeExpr :=
  .record order [⟨"lines", .array (.reference line)⟩,
    ⟨"note", .optional (.primitive .string)⟩, ⟨"spare", .map (.reference line)⟩]

def lineNode : TypeExpr :=
  .variant line [⟨"free", []⟩, ⟨"priced", [⟨"cents", .primitive .int32⟩]⟩]

/-- An order of which one spare line is priced with a text, and every value inside it carries
one label. -/
def orderLabelled (label : BoundType) : Payload :=
  let priced (cents : Payload) : Value := ⟨label, .variant "priced" [⟨label, cents⟩]⟩
  .record [⟨label, .array [priced (.scalar (.int32 5)), ⟨label, .variant "free" []⟩]⟩,
    ⟨label, .optional (some ⟨label, .scalar (.string "soon")⟩)⟩,
    ⟨label, .map [("blue", priced (.scalar (.int32 7))),
      ("red", priced (.scalar (.string "7")))]⟩]

end Example

open Example in
/-- Labels that name a node without a definition in an instance of its own, against an
instance into which the definitions came in another order. -/
theorem findMismatch_of_erased_labels_order :
    let t : BoundType := ⟨⟨1, ⟨.ofList [(order, orderNode), (line, lineNode)]⟩⟩, .reference order⟩
    let t' : BoundType := ⟨⟨2, ⟨.ofList [(line, lineNode), (order, orderNode)]⟩⟩, .reference order⟩
    let p := orderLabelled (.ofPrimitive .bool)
    let q := orderLabelled ⟨⟨3, .empty⟩, .reference line⟩
    p.erased = q.erased ∧ t.findMismatch p = t'.findMismatch q ∧ t.accepts p = t'.accepts q ∧
      t'.findMismatch q = some ⟨[.field "spare", .key "red", .case "priced", .field "cents"],
        .shape (.primitive .int32) (.primitive .string)⟩ := by
  intro t t' p q
  have modules : t.home.module = t'.home.module := by decide
  have same := findMismatch_of_erased_labels t t' p q (fun n => by rw [modules]) rfl rfl
  exact ⟨rfl, same.1, same.2, by decide⟩

end SchemaData
