import SchemaData.Proofs.Attains
import SchemaData.Proofs.Conforms
import SchemaData.Proofs.OneNode
import SchemaData.Proofs.Reach

/-!
# SchemaData.Proofs.Complete -- every datum within the budget can be drawn

Soundness says that only payloads which fit a type are drawn; this is the converse.
For a type that leads to no float, every payload that it accepts, and that is within
the bounds of `Payload.Within`, is drawn from some words.

A draw puts labels of its own on the values that it makes.  `Redraws size g p` says
that a value with the data of `p` is attained, whatever its labels.

* `attains_scalar`: native data.
* `exists_attains_payload`: every payload of the form that one node prescribes
  (`Built`), when its items can be redrawn at their places.
* `redraws_of_conforms`: by induction on the payload, what conforms to a node can be
  redrawn for it.  The head of the node prescribes the form (`Conforms.exists_head`),
  and a draw follows the same chain to it.
* `drawn_of_accepted`: the same for a whole draw.
-/

namespace SchemaData

set_option autoImplicit false

namespace Generator

variable {size : Nat}

/-! ## Native data -/

theorem attains_bool (b : Bool) : (bool : Generator Scripted Bool).Attains size b := by
  cases b with
  | false => exact attains_map (fun w : UInt32 => w >>> 31 == 1) (attains_word32 0)
  | true => exact attains_map (fun w : UInt32 => w >>> 31 == 1) (attains_word32 0x80000000)

theorem attains_bytes {bytes : List UInt8} (le : bytes.length ≤ size)
    (machine : size < Uniform.wordCount 64) :
    (Generator.bytes : Generator Scripted (List UInt8)).Attains size bytes :=
  attains_bind (attains_length le machine) (attains_byteRun bytes)

theorem attains_char (c : Char) : (char : Generator Scripted Char).Attains size c := by
  obtain ⟨i, inRange, same⟩ := exists_charOfIndex_eq c
  rw [← same]
  exact attains_map charOfIndex (attains_belowExact inRange (by decide))

theorem attains_string {s : String} (le : s.length ≤ size)
    (machine : size < Uniform.wordCount 64) :
    (string : Generator Scripted String).Attains size s := by
  have chars : (listOf char : Generator Scripted (List Char)).Attains size s.toList :=
    attains_listOf (String.length_toList ▸ le) machine fun c _ => attains_char c
  have drawn := attains_map String.ofList chars
  rwa [String.ofList_toList] at drawn

theorem attains_date {day : Int} (representable : Representable day) :
    (date : Generator Scripted Int).Attains size day := by
  obtain ⟨first, last⟩ := representable
  simp only [firstDay, lastDay] at first last
  have inRange : (day - firstDay).toNat < dayCount := by
    simp only [dayCount, firstDay, lastDay]
    omega
  have same : (dayOf? (firstDay + ((day - firstDay).toNat : Int))).getD firstDay = day := by
    rw [dayOf?_of_lt inRange, Option.getD_some]
    simp only [firstDay]
    omega
  rw [← same]
  exact attains_map (fun i : Nat => (dayOf? (firstDay + (i : Int))).getD firstDay)
    (attains_below32 inRange (by decide))

theorem attains_datetime {t : Instant} (representable : Representable t.day)
    (whole : ∃ micros < microsOfDay, t.nanos = 1000 * micros) :
    (datetime : Generator Scripted Instant).Attains size t := by
  obtain ⟨micros, inRange, same⟩ := whole
  obtain ⟨day, nanos⟩ := t
  obtain rfl : (timeOfDay? (wholeSeconds micros) (nanosBehind micros)).getD 0 = nanos := by
    rw [timeOfDay?_of_lt inRange, Option.getD_some]
    exact same.symm
  apply attains_bind (attains_date representable)
  exact attains_map
    (fun micros =>
      Instant.mk day ((timeOfDay? (wholeSeconds micros) (nanosBehind micros)).getD 0))
    (attains_below64 inRange (by decide))

theorem attains_scalar {s : Scalar} (machine : size < Uniform.wordCount 64)
    (noFloat : s.kind ≠ .float32 ∧ s.kind ≠ .float64) (bounded : s.Bounded size) :
    (scalar s.kind : Generator Scripted Scalar).Attains size s := by
  cases s with
  | bool b => exact attains_map Scalar.bool (attains_bool b)
  | bytes bytes => exact attains_map Scalar.bytes (attains_bytes bounded machine)
  | int32 i =>
      exact attains_map Scalar.int32 (attains_map UInt32.toInt32 (attains_word32 i.toUInt32))
  | int64 i =>
      exact attains_map Scalar.int64 (attains_map UInt64.toInt64 (attains_word64 i.toUInt64))
  | float32 x => exact absurd rfl noFloat.1
  | float64 x => exact absurd rfl noFloat.2
  | string s => exact attains_map Scalar.string (attains_string bounded machine)
  | date day => exact attains_map Scalar.date (attains_date bounded)
  | datetime t => exact attains_map Scalar.datetime (attains_datetime bounded.1 bounded.2)

/-! ## Nodes -/

/-- A draw gives a value with the data of a payload. -/
def Redraws (size : Nat) (g : Generator Scripted Value) (p : Payload) : Prop :=
  ∃ v, v.payload.erased = p.erased ∧ g.Attains size v

theorem exists_redrawn {g : Generator Scripted Value} {vs : List Value}
    (each : ∀ v ∈ vs, Redraws size g v.payload) :
    ∃ ws : List Value, ws.map Value.erased = vs.map Value.erased ∧ ∀ w ∈ ws, g.Attains size w := by
  induction vs with
  | nil => exact ⟨[], rfl, nofun⟩
  | cons v vs ih =>
      obtain ⟨⟨w, same, attains⟩, rest⟩ := List.forall_mem_cons.1 each
      obtain ⟨ws, sameRest, attainsRest⟩ := ih rest
      refine ⟨w :: ws, ?_, List.forall_mem_cons.2 ⟨attains, attainsRest⟩⟩
      rw [List.map_cons, List.map_cons, sameRest, Value.erased_congr same]

theorem exists_attains_components {t : BoundType} {fields : List (Field TypeExpr)}
    {vs : List Value} (arity : fields.length = vs.length)
    (each : ∀ x ∈ fields.zip vs, Redraws size (ofType (t.child x.1.type)) x.2.payload) :
    ∃ ws : List Value, ws.map Value.erased = vs.map Value.erased ∧
      (components t fields).Attains size ws := by
  induction fields generalizing vs with
  | nil =>
      obtain rfl := List.length_eq_zero_iff.1 arity.symm
      exact ⟨[], rfl, attains_pure []⟩
  | cons f fields ih =>
      cases vs with
      | nil => cases arity
      | cons v vs =>
          rw [List.zip_cons_cons] at each
          obtain ⟨⟨w, same, attains⟩, rest⟩ := List.forall_mem_cons.1 each
          obtain ⟨ws, sameRest, attainsRest⟩ := ih (Nat.succ.inj arity) rest
          refine ⟨w :: ws, ?_, attains_bind attains (attains_map _ attainsRest)⟩
          rw [List.map_cons, List.map_cons, sameRest, Value.erased_congr same]

/-- The entries of a table are drawn as they stand, because no two of them have one key:
no key is dropped after it has been drawn, and none is moved. -/
theorem exists_attains_entries {item : BoundType} {es : List (String × Value)}
    (machine : size < Uniform.wordCount 64) (few : es.length ≤ size)
    (ascending : Sorted.Ascending es) (short : ∀ e ∈ es, e.1.length ≤ size)
    (each : ∀ e ∈ es, Redraws size (ofType item) e.2.payload) :
    ∃ es' : List (String × Value), Sorted.Ascending es' ∧
      es'.map (fun e => (e.1, e.2.erased)) = es.map (fun e => (e.1, e.2.erased)) ∧
      (entries item).Attains size es' := by
  obtain ⟨ws, same, attains⟩ : ∃ ws : List Value,
      ws.map Value.erased = (es.map Prod.snd).map Value.erased ∧
        ∀ w ∈ ws, (ofType item).Attains size w :=
    exists_redrawn fun v member => by
      obtain ⟨e, inEntries, rfl⟩ := List.mem_map.1 member
      exact each e inEntries
  have arity : (es.map Prod.fst).length = ws.length := by
    have counts := congrArg List.length same
    simp only [List.length_map] at counts ⊢
    exact counts.symm
  have keysKept : ((es.map Prod.fst).zip ws).map Prod.fst = es.map Prod.fst :=
    List.map_fst_zip (Nat.le_of_eq arity)
  refine ⟨(es.map Prod.fst).zip ws, ?_, ?_, ?_⟩
  · rw [Sorted.Ascending, ← List.pairwise_map (f := Prod.fst), keysKept, List.pairwise_map]
    exact ascending
  · have erasedBehind : ((es.map Prod.fst).zip ws).map (fun e => (e.1, e.2.erased)) =
        (es.map Prod.fst).zip (ws.map Value.erased) := by
      rw [List.zip_map_right]
      rfl
    rw [erasedBehind, same, List.map_map, List.zip_map']
    rfl
  · have distinct := Sorted.nodup_of_ascending String.lt_irrefl ascending
    have keys : (listOf string : Generator Scripted (List String)).Attains size
        (es.map Prod.fst) := by
      refine attains_listOf (by rwa [List.length_map]) machine fun k member => ?_
      obtain ⟨e, inEntries, rfl⟩ := List.mem_map.1 member
      exact attains_string (short e inEntries) machine
    apply attains_bind keys
    simp only [eraseDups_of_nodup distinct, arity]
    exact attains_map (fun items => (es.map Prod.fst).zip items) (attains_vectorOf attains)

theorem exists_attains_content {item : BoundType} (held : Option Value)
    (each : ∀ v, held = some v → Redraws size (ofType item) v.payload) :
    ∃ o : Option Value, o.map Value.erased = held.map Value.erased ∧
      (content item).Attains size o := by
  -- The first of the twenty shares is that of an absent content.
  have index : ∀ i < 20, (weightedIndex optionalWeights : Generator Scripted Nat).Attains size
      (shareOf optionalWeights i) := fun i inRange =>
    attains_map (shareOf optionalWeights) (attains_belowExact inRange (by decide))
  cases held with
  | none => exact ⟨none, rfl, attains_bind (index 0 (by decide)) (attains_pure none)⟩
  | some v =>
      obtain ⟨w, same, attains⟩ := each v rfl
      refine ⟨some w, ?_, attains_bind (index 1 (by decide)) (attains_map some attains)⟩
      rw [Option.map_some, Option.map_some, Value.erased_congr same]

end Generator

namespace TypeExpr

/-- A node whose data are no floats. -/
def NoFloat (e : TypeExpr) : Prop :=
  e ≠ .primitive .float32 ∧ e ≠ .primitive .float64

instance : DecidablePred NoFloat := fun _ => inferInstanceAs (Decidable (_ ∧ _))

/-- The number of symbols or cases among which a draw of the node chooses. -/
def choices : TypeExpr → Nat
  | enum _ symbols => symbols.length
  | variant _ cases => cases.length
  | _ => 0

end TypeExpr

namespace Generator

variable {size : Nat}

/-- **What is attained for one node**: every payload of the form that it prescribes. -/
theorem exists_attains_payload {t : BoundType} {p : Payload}
    (machine : size < Uniform.wordCount 64) (noFloat : t.expr.NoFloat)
    (counted : t.expr.choices ≤ Uniform.wordCount 64) (bounded : p.Bounded size)
    (built : Built (fun c v => Redraws size (ofType (t.child c)) v.payload) t.expr p) :
    ∃ q : Payload, q.erased = p.erased ∧ (payload t).Attains size q := by
  obtain ⟨home, e⟩ := t
  cases built with
  | scalar s =>
      have notFloat : s.kind ≠ .float32 ∧ s.kind ≠ .float64 :=
        ⟨fun same => noFloat.1 (congrArg _ same), fun same => noFloat.2 (congrArg _ same)⟩
      exact ⟨.scalar s, rfl, attains_map Payload.scalar (attains_scalar machine notFloat bounded)⟩
  | array each =>
      obtain ⟨ws, same, attains⟩ := exists_redrawn each
      have arity := congrArg List.length same
      rw [List.length_map, List.length_map] at arity
      refine ⟨.array ws, by simp [same], attains_map Payload.array ?_⟩
      exact attains_listOf (arity ▸ bounded) machine attains
  | map each =>
      obtain ⟨few, ascending, short⟩ := bounded
      obtain ⟨es, ascending', same, attains⟩ :=
        exists_attains_entries machine few ascending short each
      have kept : Payload.ofEntries es = .map es := by
        rw [Payload.ofEntries, Sorted.ofList_eq_self String.lt_irrefl String.lt_trans ascending']
      have drawn := attains_map Payload.ofEntries attains
      rw [kept] at drawn
      exact ⟨.map es, by simp [same], drawn⟩
  | absent =>
      obtain ⟨o, same, attains⟩ := exists_attains_content none nofun
      exact ⟨.optional o, by simp [same], attains_map Payload.optional attains⟩
  | @present item v holds =>
      have each : ∀ w, some v = some w → Redraws size (ofType ⟨home, item⟩) w.payload := by
        rintro w ⟨⟩
        exact holds
      obtain ⟨o, same, attains⟩ := exists_attains_content (some v) each
      exact ⟨.optional o, by simp [same], attains_map Payload.optional attains⟩
  | enum member =>
      exact ⟨_, rfl, attains_map Payload.enum (attains_chooseFrom member counted)⟩
  | record arity each =>
      obtain ⟨ws, same, attains⟩ := exists_attains_components (t := ⟨home, _⟩) arity each
      exact ⟨.record ws, by simp [same], attains_map Payload.record attains⟩
  | @variant _ _ c _ chosen arity each =>
      obtain ⟨ws, same, attains⟩ := exists_attains_components (t := ⟨home, _⟩) arity each
      refine ⟨.variant c.name ws, by simp [same], ?_⟩
      exact attains_bind (attains_chooseFrom chosen counted)
        (attains_map (Payload.variant c.name) attains)

end Generator

/-! ## Payloads that conform -/

/-- A payload that conforms to a node has the form that the head of the node prescribes,
and its items conform to the children of the head. -/
theorem Conforms.exists_head {m : Module} {e : TypeExpr} {p : Payload}
    (conforms : Conforms m e p) :
    ∃ h, m.head e = .settled h ∧ m.Reaches e h ∧
      Built (fun c v => Conforms m c v.payload) h p := by
  induction conforms with
  | newtype _ ih =>
      obtain ⟨h, settled, reaches, built⟩ := ih
      exact ⟨h, (Module.head_newtype _ _).trans settled,
        .head (.child List.mem_cons_self) reaches, built⟩
  | reference found _ ih =>
      obtain ⟨h, settled, reaches, built⟩ := ih
      exact ⟨h, (Module.head_reference_settled_iff found).2 settled,
        .head (.definition found) reaches, built⟩
  | scalar s => exact ⟨_, Module.head_of_direct rfl, .refl, .scalar s⟩
  | array each => exact ⟨_, Module.head_of_direct rfl, .refl, .array each⟩
  | map each => exact ⟨_, Module.head_of_direct rfl, .refl, .map each⟩
  | absent => exact ⟨_, Module.head_of_direct rfl, .refl, .absent⟩
  | present holds => exact ⟨_, Module.head_of_direct rfl, .refl, .present holds⟩
  | enum member => exact ⟨_, Module.head_of_direct rfl, .refl, .enum member⟩
  | record arity each => exact ⟨_, Module.head_of_direct rfl, .refl, .record arity each⟩
  | variant chosen arity each =>
      have named := List.find?_some chosen
      obtain rfl := of_decide_eq_true named
      have member := List.mem_of_find?_eq_some chosen
      exact ⟨_, Module.head_of_direct rfl, .refl, .variant member arity each⟩

/-- A node of which every datum has words: it is no float, and words of 64 bits can count
its choices. -/
def TypeExpr.Drawable (e : TypeExpr) : Prop :=
  e.NoFloat ∧ e.choices ≤ Uniform.wordCount 64

/-- **What conforms can be redrawn.** -/
theorem redraws_of_conforms {home : Instance} {size : Nat} (machine : size < Uniform.wordCount 64)
    (p : Payload) : ∀ e, home.module.Throughout TypeExpr.Drawable e →
      Conforms home.module e p → p.Within size →
        Generator.Redraws size (Generator.ofType ⟨home, e⟩) p := by
  induction p using Payload.inductionOnItems with
  | step p ih =>
      intro e drawable conforms within
      obtain ⟨h, settled, reaches, built⟩ := conforms.exists_head
      obtain ⟨bounded, inside⟩ := within
      -- The items are redrawn for the children of the head, not of the node itself.
      have below : home.module.Throughout TypeExpr.Drawable h := drawable.later reaches
      have items : Built (fun c v =>
          Generator.Redraws size (Generator.ofType ⟨home, c⟩) v.payload) h p :=
        built.imp fun c child v member conforms =>
          ih v member c (below.next (.child child)) conforms (inside v member)
      obtain ⟨noFloat, counted⟩ := below.here
      obtain ⟨q, same, words, gives⟩ :=
        Generator.exists_attains_payload (t := ⟨home, h⟩) machine noFloat counted bounded items
      obtain ⟨label, behind⟩ :=
        Generator.gives_ofType_of_head Scripted (t := ⟨home, e⟩) settled
      exact ⟨⟨label, q⟩, same, words, fun rest state used => behind _ _ _ _ (gives rest state used)⟩

/-- **Draws are complete.**  For a type that leads to no float, every payload that it
accepts and that is within the budget is drawn from some words, up to the labels inside
it, and the draw takes these words and no others.  The budget and the numbers of symbols
and of cases are ones that words of 64 bits can count. -/
theorem drawn_of_accepted (t : BoundType) (size : Nat) (p : Payload)
    (machine : size < Uniform.wordCount 64)
    (noFloat : t.home.module.Throughout TypeExpr.NoFloat t.expr)
    (counted : t.home.module.Throughout (fun e => e.choices ≤ Uniform.wordCount 64) t.expr)
    (fits : t.accepts p = true) (within : p.Within size) :
    ∃ (words : List UInt64) (v : Value), v.payload.erased = p.erased ∧
      ∀ state, ∃ bound, ∀ ctx : Context Scripted, ctx.size = size → bound ≤ ctx.fuel →
        (ValueGenerator.plain t).generator ctx (Scripted.start words state) =
          .value v ⟨[], state, words.length⟩ := by
  have drawable : t.home.module.Throughout TypeExpr.Drawable t.expr := fun e reaches =>
    ⟨noFloat e reaches, counted e reaches⟩
  have conforms := (t.accepts_iff_conforms p).1 fits
  obtain ⟨v, same, words, gives⟩ := redraws_of_conforms machine p t.expr drawable conforms within
  refine ⟨words, v, same, fun state => ?_⟩
  have whole := Generator.gives_plain (gives [] state 0)
  rwa [List.append_nil, Nat.zero_add] at whole

/-- Trees of days, with any number of named trees below each of them. -/
def Example.tree : BoundType :=
  ⟨⟨1, ⟨.ofList [
      (⟨"t", "Tree", by decide⟩,
        .record ⟨"t", "Tree", by decide⟩
          [⟨"day", .primitive .date⟩,
            ⟨"below", .map (.reference ⟨"t", "Tree", by decide⟩)⟩])]⟩⟩,
    .reference ⟨"t", "Tree", by decide⟩⟩

/-- A tree with one leaf below it. -/
def Example.twoDays : Payload :=
  let leaf := Payload.record
    [⟨Payload.anyType, .scalar (.date 738000)⟩, ⟨Payload.anyType, .map []⟩]
  .record [⟨Payload.anyType, .scalar (.date (-400000))⟩,
    ⟨Payload.anyType, .map [("é", ⟨Payload.anyType, leaf⟩)]⟩]

theorem Example.twoDays_within : Example.twoDays.Within 1 := by
  have day : ∀ d : Int, Representable d → (Payload.scalar (.date d)).Within 1 :=
    fun d representable => .mk representable nofun
  have leaf : (Payload.record [⟨Payload.anyType, .scalar (.date 738000)⟩,
      ⟨Payload.anyType, .map []⟩]).Within 1 := by
    refine .mk trivial (List.forall_mem_cons.2 ⟨day _ (by decide), ?_⟩)
    exact List.forall_mem_singleton.2 (.mk ⟨by decide, .nil, nofun⟩ nofun)
  refine .mk trivial (List.forall_mem_cons.2 ⟨day _ (by decide), ?_⟩)
  refine List.forall_mem_singleton.2 (.mk ⟨by decide, List.pairwise_singleton _ _, ?_⟩ ?_)
  · exact List.forall_mem_singleton.2 (by decide)
  · exact List.forall_mem_singleton.2 leaf

/-- The conditions hold of a payload of a recursive type. -/
theorem drawn_of_accepted_twoDays :
    Example.tree.accepts Example.twoDays = true ∧
      ∃ (words : List UInt64) (v : Value), v.payload.erased = Example.twoDays.erased ∧
        ∀ state, ∃ bound, ∀ ctx : Context Scripted, ctx.size = 1 → bound ≤ ctx.fuel →
          (ValueGenerator.plain Example.tree).generator ctx (Scripted.start words state) =
            .value v ⟨[], state, words.length⟩ := by
  have fits : Example.tree.accepts Example.twoDays = true := by decide
  exact ⟨fits, drawn_of_accepted Example.tree 1 Example.twoDays (by decide)
    (Module.throughout_of_nodes (by decide) (by decide))
    (Module.throughout_of_nodes (by decide) (by decide)) fits Example.twoDays_within⟩

end SchemaData
