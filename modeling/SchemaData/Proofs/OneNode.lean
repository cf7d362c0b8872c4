import SchemaData.Proofs.Chain
import SchemaData.Proofs.Ensures

/-!
# SchemaData.Proofs.OneNode -- what a draw makes of one node

`Generator.payload` looks at one node and draws the values below it through its
context.  This module says once all that it can do.

* `Built Item e p`: the payload `p` has the form that the node `e` prescribes, and
  its items satisfy `Item` at the types of their places.
* `Payload.Bounded size p`: lengths are within the budget, and days and times of day
  are ones that a draw can give; `Payload.Within` is that at every depth.
* `ensures_payload`: a drawn payload is built and bounded, provided that what is drawn
  through the context satisfies `Item`; and it fails as these draws fail, or for want
  of a choice at a node that `TypeExpr.checkLocal` refuses.
-/

namespace SchemaData

set_option autoImplicit false

variable {σ : Type}

/-- A day that can be represented. -/
def Representable (day : Int) : Prop :=
  Generator.firstDay ≤ day ∧ day ≤ Generator.lastDay

instance : DecidablePred Representable := fun _ => inferInstanceAs (Decidable (_ ∧ _))

/-- The bounds on a native datum: texts and bytes are as long as the budget allows, and
a time of day is a whole number of microseconds. -/
def Scalar.Bounded (size : Nat) : Scalar → Prop
  | bytes bs => bs.length ≤ size
  | string s => s.length ≤ size
  | date day => Representable day
  | datetime t => Representable t.day ∧ ∃ micros < Generator.microsOfDay, t.nanos = 1000 * micros
  | _ => True

/-- The bounds on a payload, those on its items left aside.  The keys of a map ascend,
as they do in every `Payload.ofEntries`. -/
def Payload.Bounded (size : Nat) : Payload → Prop
  | scalar s => s.Bounded size
  | array vs => vs.length ≤ size
  | map es => es.length ≤ size ∧ Sorted.Ascending es ∧ ∀ e ∈ es, e.1.length ≤ size
  | _ => True

/-- The bounds on a payload and on everything inside it. -/
inductive Payload.Within (size : Nat) : Payload → Prop
  | mk {p : Payload} : p.Bounded size → (∀ v ∈ p.items, v.payload.Within size) → p.Within size

/-- The form that a node which is neither a newtype nor a reference prescribes, with
`Item` for the values at the places of its children. -/
inductive Built (Item : TypeExpr → Value → Prop) : TypeExpr → Payload → Prop
  | scalar (s : Scalar) : Built Item (.primitive s.kind) (.scalar s)
  | array {item : TypeExpr} {vs : List Value} :
      (∀ v ∈ vs, Item item v) → Built Item (.array item) (.array vs)
  | map {item : TypeExpr} {es : List (String × Value)} :
      (∀ e ∈ es, Item item e.2) → Built Item (.map item) (.map es)
  | absent {item : TypeExpr} : Built Item (.optional item) (.optional none)
  | present {item : TypeExpr} {v : Value} :
      Item item v → Built Item (.optional item) (.optional (some v))
  | enum {n : Name} {symbols : List String} {s : String} :
      s ∈ symbols → Built Item (.enum n symbols) (.enum s)
  | record {n : Name} {fields : List (Field TypeExpr)} {vs : List Value} :
      fields.length = vs.length → (∀ x ∈ fields.zip vs, Item x.1.type x.2) →
      Built Item (.record n fields) (.record vs)
  /-- Any case may be chosen, also one behind another of the same name. -/
  | variant {n : Name} {cases : List (Case TypeExpr)} {c : Case TypeExpr} {vs : List Value} :
      c ∈ cases → c.parameters.length = vs.length →
      (∀ x ∈ c.parameters.zip vs, Item x.1.type x.2) →
      Built Item (.variant n cases) (.variant c.name vs)

/-- Every item of a built payload stands at the place of some child of the node. -/
theorem Built.exists_child {Item : TypeExpr → Value → Prop} {e : TypeExpr} {p : Payload}
    (built : Built Item e p) : ∀ v ∈ p.items, ∃ c ∈ e.children, Item c v := by
  have atPosition : ∀ {fields : List (Field TypeExpr)} {vs : List Value},
      fields.length = vs.length → (∀ x ∈ fields.zip vs, Item x.1.type x.2) →
        ∀ v ∈ vs, ∃ f ∈ fields, Item f.type v := by
    intro fields vs arity each v member
    obtain ⟨i, inRange, rfl⟩ := List.mem_iff_getElem.1 member
    have paired : (fields[i], vs[i]) ∈ fields.zip vs := by
      rw [List.mem_iff_getElem]
      exact ⟨i, by simp; omega, by simp⟩
    exact ⟨fields[i], List.getElem_mem _, each _ paired⟩
  cases built with
  | scalar | absent | enum => nofun
  | array each => exact fun v member => ⟨_, List.mem_cons_self, each v member⟩
  | map each =>
      intro v member
      obtain ⟨e, inEntries, rfl⟩ := List.mem_map.1 member
      exact ⟨_, List.mem_cons_self, each e inEntries⟩
  | present holds =>
      intro v member
      obtain rfl := List.mem_singleton.1 member
      exact ⟨_, List.mem_cons_self, holds⟩
  | record arity each =>
      intro v member
      obtain ⟨f, inFields, holds⟩ := atPosition arity each v member
      exact ⟨_, List.mem_map_of_mem inFields, holds⟩
  | variant chosen arity each =>
      intro v member
      obtain ⟨f, inParameters, holds⟩ := atPosition arity each v member
      exact ⟨_, TypeExpr.mem_children_of_parameter chosen inParameters, holds⟩

theorem Built.imp {Item Other : TypeExpr → Value → Prop} {e : TypeExpr} {p : Payload}
    (built : Built Item e p)
    (weaken : ∀ c ∈ e.children, ∀ v ∈ p.items, Item c v → Other c v) : Built Other e p := by
  have parts : ∀ {fields : List (Field TypeExpr)} {vs : List Value},
      (∀ f ∈ fields, f.type ∈ e.children) → (∀ v ∈ vs, v ∈ p.items) →
        (∀ x ∈ fields.zip vs, Item x.1.type x.2) → ∀ x ∈ fields.zip vs, Other x.1.type x.2 := by
    intro fields vs children items each x member
    obtain ⟨inFields, inValues⟩ := List.of_mem_zip member
    exact weaken _ (children _ inFields) _ (items _ inValues) (each x member)
  cases built with
  | scalar s => exact .scalar s
  | array each =>
      exact .array fun v member => weaken _ List.mem_cons_self v member (each v member)
  | map each =>
      exact .map fun e member =>
        weaken _ List.mem_cons_self e.2 (List.mem_map_of_mem member) (each e member)
  | absent => exact .absent
  | present holds => exact .present (weaken _ List.mem_cons_self _ List.mem_cons_self holds)
  | enum member => exact .enum member
  | record arity each =>
      refine .record arity (parts ?_ (fun _ member => member) each)
      exact fun f member => List.mem_map_of_mem member
  | variant chosen arity each =>
      refine .variant chosen arity (parts ?_ (fun _ member => member) each)
      exact fun f member => TypeExpr.mem_children_of_parameter chosen member

/-! ## Native data -/

namespace Generator

variable {ctx : Context σ} {E : DrawError → Prop} [RandomSource σ]

theorem ensures_bytes : (bytes : Generator σ (List UInt8)).Ensures ctx (·.length ≤ ctx.size) E :=
  ensures_bind ensures_length fun _ le => (ensures_byteRun _).imp fun _ same => same ▸ le

theorem ensures_string : (string : Generator σ String).Ensures ctx (·.length ≤ ctx.size) E := by
  have char : (char : Generator σ Char).Ensures ctx (fun _ => True) E :=
    ensures_map ((ensures_belowExact (by decide)).imp fun _ _ => trivial)
  refine ensures_map ((ensures_listOf char).imp ?_)
  rintro cs ⟨le, -⟩
  rwa [String.length_ofList]

theorem ensures_date : (date : Generator σ Int).Ensures ctx Representable E := by
  refine ensures_map ((ensures_below32 (by decide)).imp ?_)
  intro i inRange
  rw [dayOf?_of_lt inRange, Option.getD_some]
  simp only [Representable, dayCount, firstDay, lastDay] at inRange ⊢
  omega

theorem ensures_datetime : (datetime : Generator σ Instant).Ensures ctx
    (fun t => Representable t.day ∧ ∃ micros < microsOfDay, t.nanos = 1000 * micros) E := by
  refine ensures_bind ensures_date fun day representable =>
    ensures_map ((ensures_below64 (by decide)).imp ?_)
  intro micros inRange
  rw [timeOfDay?_of_lt inRange, Option.getD_some]
  exact ⟨representable, micros, inRange, rfl⟩

theorem ensures_word32 : (word32 : Generator σ UInt32).Ensures ctx (fun _ => True) E :=
  fun _ => trivial

theorem ensures_word64 : (word64 : Generator σ UInt64).Ensures ctx (fun _ => True) E :=
  fun _ => trivial

theorem ensures_scalar (p : Primitive) :
    (scalar p : Generator σ Scalar).Ensures ctx (fun s => s.kind = p ∧ s.Bounded ctx.size) E := by
  cases p with
  | bool =>
      exact ensures_map (ensures_map (ensures_word32.imp fun _ _ => ⟨rfl, trivial⟩))
  | bytes => exact ensures_map (ensures_bytes.imp fun _ le => ⟨rfl, le⟩)
  | int32 =>
      exact ensures_map (ensures_map (ensures_word32.imp fun _ _ => ⟨rfl, trivial⟩))
  | int64 =>
      exact ensures_map (ensures_map (ensures_word64.imp fun _ _ => ⟨rfl, trivial⟩))
  | float32 =>
      refine ensures_map (ensures_bind (Q := fun _ => True) (fun _ => trivial) fun _ _ => ?_)
      exact ensures_map (ensures_word32.imp fun _ _ => ⟨rfl, trivial⟩)
  | float64 =>
      refine ensures_map (ensures_bind (Q := fun _ => True) (fun _ => trivial) fun _ _ => ?_)
      exact ensures_map (ensures_word64.imp fun _ _ => ⟨rfl, trivial⟩)
  | string => exact ensures_map (ensures_string.imp fun _ le => ⟨rfl, le⟩)
  | date => exact ensures_map (ensures_date.imp fun _ representable => ⟨rfl, representable⟩)
  | datetime => exact ensures_map (ensures_datetime.imp fun _ bounded => ⟨rfl, bounded⟩)

/-! ## Nodes -/

variable {t : BoundType} {Item : TypeExpr → Value → Prop}

omit [RandomSource σ] in
theorem ensures_components {fields : List (Field TypeExpr)}
    (draws : ∀ f ∈ fields, (ofType (t.child f.type)).Ensures ctx (Item f.type) E) :
    (components t fields).Ensures ctx
      (fun vs => fields.length = vs.length ∧ ∀ x ∈ fields.zip vs, Item x.1.type x.2) E := by
  induction fields with
  | nil => exact ensures_pure ⟨rfl, nofun⟩
  | cons f fields ih =>
      obtain ⟨first, rest⟩ := List.forall_mem_cons.1 draws
      refine ensures_bind first fun v holds => ensures_map ((ih rest).imp ?_)
      rintro vs ⟨arity, each⟩
      refine ⟨by simp [arity], ?_⟩
      rw [List.zip_cons_cons, List.forall_mem_cons]
      exact ⟨holds, each⟩

theorem length_eraseDups_le (xs : List String) : xs.eraseDups.length ≤ xs.length := by
  induction n : xs.length using Nat.strongRecOn generalizing xs with
  | ind n ih =>
      cases xs with
      | nil => simp
      | cons x xs =>
          subst n
          have fewer := List.length_filter_le (fun y => !(y == x)) xs
          have rest := ih _ (by simp; omega) (xs.filter fun y => !(y == x)) rfl
          rw [List.eraseDups_cons]
          simp only [List.length_cons]
          omega

theorem eraseDups_of_nodup {xs : List String} (distinct : xs.Nodup) : xs.eraseDups = xs := by
  induction xs with
  | nil => rfl
  | cons x xs ih =>
      obtain ⟨fresh, distinct⟩ := List.nodup_cons.1 distinct
      have kept : xs.filter (fun y => !(y == x)) = xs := by
        refine List.filter_eq_self.2 fun y member => ?_
        have other : y ≠ x := fun same => fresh (same ▸ member)
        simpa using other
      rw [List.eraseDups_cons, kept, ih distinct]

theorem ensures_entries {item : BoundType} {Q : Value → Prop}
    (draw : (ofType item).Ensures ctx Q E) :
    (entries item).Ensures ctx
      (fun es => es.length ≤ ctx.size ∧ ∀ e ∈ es, e.1.length ≤ ctx.size ∧ Q e.2) E := by
  refine ensures_bind (ensures_listOf ensures_string) fun keys ⟨few, short⟩ =>
    ensures_map ((ensures_vectorOf draw _).imp ?_)
  rintro vs ⟨-, each⟩
  constructor
  · have := length_eraseDups_le keys
    rw [List.length_zip]
    omega
  · intro e member
    obtain ⟨inKeys, inValues⟩ := List.of_mem_zip member
    exact ⟨short _ (List.mem_eraseDups.1 inKeys), each _ inValues⟩

/-- The table of drawn entries is bounded, and its values are among those drawn. -/
theorem bounded_ofEntries {size : Nat} {item : TypeExpr} {es : List (String × Value)}
    (few : es.length ≤ size) (each : ∀ e ∈ es, e.1.length ≤ size ∧ Item item e.2) :
    (Payload.ofEntries es).Bounded size ∧ Built Item (.map item) (.ofEntries es) := by
  have kept : ∀ e ∈ Sorted.ofList es, e ∈ es := fun e => Sorted.mem_ofList
  refine ⟨⟨?_, ?_, ?_⟩, ?_⟩
  · exact (Sorted.length_ofList_le es).trans few
  · exact Sorted.ofList_ascending String.lt_trans Std.lt_trichotomy es
  · exact fun e member => (each e (kept e member)).1
  · exact .map fun e member => (each e (kept e member)).2

theorem ensures_weightedIndex_optional :
    (weightedIndex optionalWeights : Generator σ Nat).Ensures ctx (fun _ => True) E :=
  ensures_map ((ensures_belowExact (by decide)).imp fun _ _ => trivial)

theorem ensures_content {item : BoundType} {Q : Value → Prop}
    (draw : (ofType item).Ensures ctx Q E) :
    (content item).Ensures ctx (fun o => ∀ v ∈ o, Q v) E := by
  refine ensures_bind ensures_weightedIndex_optional fun i _ => ?_
  by_cases none : i = 0
  · rw [if_pos none]
    exact ensures_pure nofun
  · rw [if_neg none]
    refine ensures_map (draw.imp ?_)
    rintro v holds w ⟨⟩
    exact holds

/-- **What a draw makes of one node.** -/
theorem ensures_payload (direct : t.expr.isIndirect = false)
    (draws : ∀ c ∈ t.expr.children, (ofType (t.child c)).Ensures ctx (Item c) E)
    (empty : ∀ what, t.expr.checkLocal ≠ .ok () → E (.emptyChoice what)) :
    (payload t).Ensures ctx (fun p => p.Bounded ctx.size ∧ Built Item t.expr p) E := by
  obtain ⟨home, e⟩ := t
  cases e with
  | primitive p =>
      refine ensures_map ((ensures_scalar p).imp ?_)
      rintro s ⟨rfl, bounded⟩
      exact ⟨bounded, .scalar s⟩
  | array item =>
      refine ensures_map ((ensures_listOf (draws item List.mem_cons_self)).imp ?_)
      rintro vs ⟨few, each⟩
      exact ⟨few, .array each⟩
  | map item =>
      refine ensures_map ((ensures_entries (draws item List.mem_cons_self)).imp ?_)
      rintro es ⟨few, each⟩
      exact bounded_ofEntries few each
  | optional item =>
      refine ensures_map ((ensures_content (draws item List.mem_cons_self)).imp ?_)
      intro o each
      cases o with
      | none => exact ⟨trivial, .absent⟩
      | some v => exact ⟨trivial, .present (each v rfl)⟩
  | enum n symbols =>
      refine ensures_map ((ensures_chooseFrom fun none => empty _ ?_).imp ?_)
      · simp [none, TypeExpr.checkLocal]
      · exact fun s member => ⟨trivial, .enum member⟩
  | record n fields =>
      refine ensures_map ((ensures_components fun f member =>
        draws f.type (List.mem_map_of_mem member)).imp ?_)
      rintro vs ⟨arity, each⟩
      exact ⟨trivial, .record arity each⟩
  | variant n cases =>
      refine ensures_bind (ensures_chooseFrom fun none => empty _ ?_) fun c chosen => ?_
      · simp [none, TypeExpr.checkLocal]
      refine ensures_map ((ensures_components fun f member =>
        draws f.type (TypeExpr.mem_children_of_parameter chosen member)).imp ?_)
      rintro vs ⟨arity, each⟩
      exact ⟨trivial, .variant chosen arity each⟩
  | newtype n u | reference n => cases direct

end Generator

end SchemaData
