import Mathlib.Data.List.Forall2
import Mathlib.Data.List.Nodup
import Mathlib.Data.List.Perm.Basic
import SchemaData.Document.Schema
import SchemaData.Proofs.Names
import SchemaData.Proofs.Reach

/-!
# SchemaData.Proofs.ReadBack -- a written schema is read back as it was

Reading accepts more than writing gives: members in any order and members that nobody asks for,
a node, a field or a case as a list of its parts, a case without parameters.  `d.Alike d'` says
that two documents are one value, an object with its members in another order included, and
what is shown is that reading makes of every value what was written.

A node shares its object with its own tag.  So reading is not followed member by member: an
object `Holds` the parts of a node when it has a member for each of them and reads every such
member as that part, and then the parts are found whatever else it holds
(`exists_decodeMembers`).  What was written for parts is held by all objects that are the same
value (`Writes.holds`).

* `decodeType_of_parts`: one node, when its parts are read back.
* `nodeReadsBack`: a whole tree, by induction from the children of a node.
* `decodeModule_of_alike`: a module, because each name has one text and a table one order.
* `written_read_back`: both, and that writing what was read changes nothing any more.
-/

namespace SchemaData

set_option autoImplicit false

namespace Document

/-! ## Documents as values -/

/-- The same value.  Lists agree item by item, and objects member by member in some order. -/
inductive Alike : Document → Document → Prop
  | null : Alike null null
  | boolean (b : Bool) : Alike (boolean b) (boolean b)
  | integer (i : Int) : Alike (integer i) (integer i)
  | decimal : Alike decimal decimal
  | text (s : String) : Alike (text s) (text s)
  | list {items items' : List Document} :
      List.Forall₂ Alike items items' → Alike (list items) (list items')
  | object {members moved members' : List (String × Document)} :
      members.map Prod.fst = moved.map Prod.fst →
      List.Forall₂ Alike (members.map Prod.snd) (moved.map Prod.snd) →
      moved.Perm members' → Alike (object members) (object members')

theorem alike_refl (d : Document) : d.Alike d := by
  match d with
  | null => exact .null
  | boolean b => exact .boolean b
  | integer i => exact .integer i
  | decimal => exact .decimal
  | text s => exact .text s
  | list items => exact .list (List.forall₂_same.2 fun d _inside => alike_refl d)
  | object members =>
      refine .object rfl (List.forall₂_same.2 fun d inside => ?_) (.refl members)
      obtain ⟨m, _member, rfl⟩ := List.mem_map.1 inside
      exact alike_refl m.2
termination_by sizeOf d
decreasing_by
  · have := List.sizeOf_lt_of_mem _inside
    simp only [list.sizeOf_spec]
    omega
  · have := List.sizeOf_lt_of_mem _member
    cases m
    simp only [object.sizeOf_spec, Prod.mk.sizeOf_spec] at this ⊢
    omega

variable {members members' : List (String × Document)}

/-- The members of two objects that are one value, in pairs. -/
theorem Alike.exists_moved {d : Document} (alike : (Document.object members).Alike d) :
    ∃ moved members', d = .object members' ∧ moved.Perm members' ∧
      List.Forall₂ (fun a b : String × Document => a.1 = b.1 ∧ a.2.Alike b.2) members moved := by
  cases alike with
  | @object _ moved members' keys each perm =>
      refine ⟨moved, members', rfl, perm, ?_⟩
      clear perm
      induction members generalizing moved with
      | nil =>
          obtain rfl := List.map_eq_nil_iff.1 keys.symm
          exact .nil
      | cons a members ih =>
          cases moved with
          | nil => cases keys
          | cons b moved =>
              obtain ⟨same, keys⟩ := List.cons.inj keys
              obtain ⟨first, each⟩ := List.forall₂_cons.1 each
              exact .cons ⟨same, first⟩ (ih keys each)

theorem exists_mem_of_forall₂ {α β : Type} {R : α → β → Prop} {as : List α} {bs : List β}
    (pairs : List.Forall₂ R as bs) : ∀ a ∈ as, ∃ b ∈ bs, R a b := by
  induction pairs with
  | nil => exact nofun
  | cons first _ ih =>
      rintro a (_ | ⟨_, later⟩)
      · exact ⟨_, List.mem_cons_self, first⟩
      · obtain ⟨b, member, related⟩ := ih a later
        exact ⟨b, List.mem_cons_of_mem _ member, related⟩

/-- The second object has the keys of the first, and at each of them what the first has. -/
structure MembersAlike (members members' : List (String × Document)) : Prop where
  keys : ∀ key d, (key, d) ∈ members → ∃ d', (key, d') ∈ members'
  values : ∀ key d', (key, d') ∈ members' → ∃ d, (key, d) ∈ members ∧ d.Alike d'

theorem Alike.exists_members {d : Document} (alike : (Document.object members).Alike d) :
    ∃ members', d = .object members' ∧ MembersAlike members members' := by
  obtain ⟨moved, members', rfl, perm, pairs⟩ := alike.exists_moved
  refine ⟨members', rfl, fun key d member => ?_, fun key d' member => ?_⟩
  · obtain ⟨⟨key', d'⟩, inMoved, rfl, -⟩ := exists_mem_of_forall₂ pairs _ member
    exact ⟨d', perm.mem_iff.1 inMoved⟩
  · obtain ⟨⟨key', d⟩, inMembers, rfl, same⟩ :=
      exists_mem_of_forall₂ pairs.flip _ (perm.mem_iff.2 member)
    exact ⟨d, inMembers, same⟩

/-! ## The parts of a node -/

/-- The parts that a node has beside its shape. -/
def partsOf : TypeExpr → Parts
  | .primitive _ => []
  | .array item | .map item | .optional item => [(.item, .type item)]
  | .enum name symbols => [(.name, .name name), (.symbols, .symbols symbols)]
  | .record name fields => [(.name, .name name), (.fields, .fields fields)]
  | .variant name cases => [(.name, .name name), (.cases, .cases cases)]
  | .newtype name underlying => [(.name, .name name), (.underlying, .type underlying)]
  | .reference name => [(.name, .name name)]

def partsOfField (f : Field TypeExpr) : Parts := [(.label, .label f.name), (.type, .type f.type)]

def partsOfCase (c : Case TypeExpr) : Parts :=
  [(.label, .label c.name), (.parameters, .fields c.parameters)]

/-- The document of one part. -/
def encodePart : Part → Document
  | .type e => encodeType e
  | .name n => encodeName n
  | .label s => text s
  | .symbols symbols => list (symbols.map text)
  | .fields fields => list (encodeFields fields)
  | .cases cases => list (encodeCases cases)

/-- An object holds exactly these parts under their keys, as they are written. -/
def Writes (rows : Parts) (members : List (String × Document)) : Prop :=
  ∀ row ∈ rows, ∀ d, (row.1.key, d) ∈ members ↔ d = encodePart row.2

/-- An object has each of these parts, and whatever stands under its key is read as it. -/
def Holds (rows : Parts) (members : List (String × Document)) : Prop :=
  ∀ row ∈ rows, (∃ d, (row.1.key, d) ∈ members) ∧
    ∀ d, (row.1.key, d) ∈ members → decodePart row.1 d = .ok row.2

/-- A part is read back from every document that is the value written for it. -/
def ReadsBack (row : Member × Part) : Prop :=
  ∀ d, (encodePart row.2).Alike d → decodePart row.1 d = .ok row.2

theorem partsOf_fst (e : TypeExpr) : (partsOf e).map Prod.fst = membersOf e.shape := by
  cases e <;> rfl

theorem nodup_partsOf (e : TypeExpr) : ((partsOf e).map (·.1.key)).Nodup := by
  cases e <;> simp [partsOf, Member.key]

/-- A node is written as an object with one member for its shape and one for each part. -/
theorem encodeType_eq (e : TypeExpr) : ∃ members, encodeType e = object members ∧
    (∀ d, ("kind", d) ∈ members ↔ d = text e.shape.label) ∧ Writes (partsOf e) members := by
  cases e <;>
    exact ⟨_, by rw [encodeType], by simp [TypeExpr.shape, Shape.label],
      by simp [Writes, partsOf, encodePart, Member.key]⟩

/-- A node is put together from its parts, in whatever order these were found. -/
theorem assembleType_eq {e : TypeExpr} {parts : Parts}
    (found : ∀ row ∈ partsOf e, Parts.find? row.1 parts = some row.2) :
    parts.assembleType e.shape = .ok e := by
  cases e <;>
    simp_all [partsOf, TypeExpr.shape, Parts.assembleType, Parts.nameOf, Parts.typeAt, Except.map,
      bind, Except.bind]

/-! ## Objects -/

variable {rows : Parts}

/-- Reading finds every part that an object has, whatever else the object holds. -/
theorem exists_decodeMembers (distinct : (rows.map (·.1.key)).Nodup)
    (reads : ∀ row ∈ rows, ∀ d, (row.1.key, d) ∈ members → decodePart row.1 d = .ok row.2) :
    ∃ parts, decodeMembers (rows.map Prod.fst) members = .ok parts ∧
      ∀ row ∈ rows, row.1.key ∈ members.map Prod.fst →
        Parts.find? row.1 parts = some row.2 := by
  induction members with
  | nil => exact ⟨[], by rw [decodeMembers], nofun⟩
  | cons first members ih =>
      obtain ⟨key, d⟩ := first
      obtain ⟨parts, read, found⟩ := ih fun row member d inside =>
        reads row member d (List.mem_cons_of_mem _ inside)
      rw [decodeMembers]
      cases wanted : (rows.map Prod.fst).find? fun m => m.key = key with
      | none =>
          refine ⟨parts, read, fun row member there => found row member ?_⟩
          refine (List.mem_cons.1 there).resolve_left fun same => ?_
          have other := List.find?_eq_none.1 wanted row.1 (List.mem_map_of_mem member)
          simp [same] at other
      | some m =>
          obtain ⟨row, member, rfl⟩ := List.mem_map.1 (List.mem_of_find?_eq_some wanted)
          have same : row.1.key = key := by simpa using List.find?_some wanted
          have part := reads row member d (same ▸ List.mem_cons_self)
          refine ⟨(row.1, row.2) :: parts, by simp only [part, read]; rfl,
            fun row' member' there => ?_⟩
          rw [Parts.find?]
          -- Of several members with one key the first is found, and all are read as one part.
          by_cases again : row.1 = row'.1
          · obtain rfl : row = row' :=
              List.inj_on_of_nodup_map distinct member member' (congrArg Member.key again)
            rw [if_pos rfl]
          · have other : row'.1.key ≠ key := by
              intro same'
              have together := List.inj_on_of_nodup_map distinct member member'
                (same.trans same'.symm)
              exact again (congrArg Prod.fst together)
            rw [if_neg again]
            exact found row' member' ((List.mem_cons.1 there).resolve_left other)

theorem Holds.exists_decodeMembers (holds : Holds rows members)
    (distinct : (rows.map (·.1.key)).Nodup) :
    ∃ parts, decodeMembers (rows.map Prod.fst) members = .ok parts ∧
      ∀ row ∈ rows, Parts.find? row.1 parts = some row.2 := by
  obtain ⟨parts, read, found⟩ :=
    Document.exists_decodeMembers distinct fun row member => (holds row member).2
  refine ⟨parts, read, fun row member => found row member ?_⟩
  obtain ⟨d, there⟩ := (holds row member).1
  exact List.mem_map_of_mem there

/-- What was written for parts is there in every object that is the same value. -/
theorem Writes.holds (writes : Writes rows members) (back : ∀ row ∈ rows, ReadsBack row)
    (alike : MembersAlike members members') : Holds rows members' := by
  refine fun row member => ⟨?_, fun d' inside => ?_⟩
  · exact alike.keys _ _ ((writes row member _).2 rfl)
  · obtain ⟨d, inMembers, same⟩ := alike.values _ _ inside
    obtain rfl := (writes row member d).1 inMembers
    exact back row member d' same

theorem member?_eq_some {key : String} {d : Document} (there : ∃ d', (key, d') ∈ members)
    (only : ∀ d', (key, d') ∈ members → d' = d) : member? key members = some d := by
  induction members with
  | nil =>
      obtain ⟨d', member⟩ := there
      cases member
  | cons first members ih =>
      obtain ⟨key', d'⟩ := first
      rw [member?]
      split
      · rename_i same
        rw [only d' (same ▸ List.mem_cons_self)]
      · rename_i other
        refine ih ?_ fun d'' inside => only d'' (List.mem_cons_of_mem _ inside)
        obtain ⟨d'', inside⟩ := there
        rcases List.mem_cons.1 inside with same | later
        · exact absurd (congrArg Prod.fst same).symm other
        · exact ⟨d'', later⟩

theorem eq_text_of_alike {s : String} {d : Document} (alike : (Document.text s).Alike d) :
    d = text s := by
  cases alike
  rfl

theorem decodeKind_label (positions : Bool) (shape : Shape) :
    decodeKind positions (text shape.label) = .ok shape := by
  rw [decodeKind, Shape.ofLabel?_label]

/-- **One node.**  A node whose parts are read back is read back itself. -/
theorem decodeType_of_parts {e : TypeExpr} (back : ∀ row ∈ partsOf e, ReadsBack row)
    (positions : Bool) {d : Document} (alike : (encodeType e).Alike d) :
    decodeType positions d = .ok e := by
  obtain ⟨members, written, kinds, writes⟩ := encodeType_eq e
  rw [written] at alike
  obtain ⟨members', rfl, same⟩ := alike.exists_members
  have kind : member? "kind" members' = some (text e.shape.label) := by
    refine member?_eq_some (same.keys _ _ ((kinds _).2 rfl)) fun d' inside => ?_
    obtain ⟨d, inMembers, label⟩ := same.values _ _ inside
    obtain rfl := (kinds d).1 inMembers
    exact eq_text_of_alike label
  obtain ⟨parts, read, found⟩ := (writes.holds back same).exists_decodeMembers (nodup_partsOf e)
  rw [partsOf_fst] at read
  rw [decodeType, kind]
  simp only [decodeKind_label, read, bind, Except.bind]
  exact assembleType_eq found

/-! ## Lists of parts -/

theorem decodeText_of_alike {s : String} {d : Document} (alike : (text s).Alike d) :
    decodeText d = .ok s := by
  rw [eq_text_of_alike alike]
  rfl

theorem Writes.exists_decodeParts {d : Document} (writes : Writes rows members)
    (distinct : (rows.map (·.1.key)).Nodup) (back : ∀ row ∈ rows, ReadsBack row)
    (alike : (Document.object members).Alike d) :
    ∃ parts, decodeParts (rows.map Prod.fst) d = .ok parts ∧
      ∀ row ∈ rows, Parts.find? row.1 parts = some row.2 := by
  obtain ⟨members', rfl, same⟩ := alike.exists_members
  rw [decodeParts]
  exact (writes.holds back same).exists_decodeMembers distinct

/-- Items are read back one by one. -/
theorem mapM_eq_ok {α : Type} {R : α → Document → Prop} {read : Document → Except DecodeError α}
    {as : List α} {items : List Document} (pairs : List.Forall₂ R as items)
    (each : ∀ a ∈ as, ∀ d, R a d → read d = .ok a) : items.mapM read = .ok as := by
  induction pairs with
  | nil => rfl
  | cons first _ ih =>
      obtain ⟨here, later⟩ := List.forall_mem_cons.1 each
      rw [List.mapM_cons, here _ first, ih later]
      rfl

theorem mapM_decodeText_of_alike {symbols : List String} {items : List Document}
    (alike : List.Forall₂ Alike (symbols.map text) items) :
    items.mapM decodeText = .ok symbols :=
  mapM_eq_ok (List.forall₂_map_left_iff.1 alike) fun _ _ _ => decodeText_of_alike

def encodeField (f : Field TypeExpr) : Document :=
  object [("name", text f.name), ("type", encodeType f.type)]

def encodeCase (c : Case TypeExpr) : Document :=
  object [("name", text c.name), ("parameters", list (encodeFields c.parameters))]

theorem encodeFields_eq (fields : List (Field TypeExpr)) :
    encodeFields fields = fields.map encodeField := by
  induction fields with
  | nil => rw [encodeFields, List.map_nil]
  | cons f fields ih => rw [encodeFields, List.map_cons, ih, encodeField]

theorem encodeCases_eq (cases : List (Case TypeExpr)) :
    encodeCases cases = cases.map encodeCase := by
  induction cases with
  | nil => rw [encodeCases, List.map_nil]
  | cons c cases ih => rw [encodeCases, List.map_cons, ih, encodeCase]

theorem decodeFields_eq (items : List Document) :
    decodeFields items =
      items.mapM fun d => decodeParts membersOfField d >>= Parts.assembleField := by
  induction items with
  | nil =>
      rw [decodeFields]
      rfl
  | cons d items ih =>
      rw [decodeFields, List.mapM_cons, ih, bind_assoc]
      rfl

theorem decodeCases_eq (items : List Document) :
    decodeCases items = items.mapM fun d => decodeParts membersOfCase d >>= Parts.assembleCase := by
  induction items with
  | nil =>
      rw [decodeCases]
      rfl
  | cons d items ih =>
      rw [decodeCases, List.mapM_cons, ih, bind_assoc]
      rfl

/-- Fields are read back with the types of their places. -/
theorem decodeFields_of_alike {fields : List (Field TypeExpr)}
    (back : ∀ f ∈ fields, ∀ row ∈ partsOfField f, ReadsBack row) {items : List Document}
    (alike : List.Forall₂ Alike (encodeFields fields) items) : decodeFields items = .ok fields := by
  rw [encodeFields_eq, List.forall₂_map_left_iff] at alike
  rw [decodeFields_eq]
  refine mapM_eq_ok alike fun f member d same => ?_
  have writes : Writes (partsOfField f)
      [("name", text f.name), ("type", encodeType f.type)] := by
    simp [Writes, partsOfField, Member.key, encodePart]
  obtain ⟨parts, read, found⟩ :=
    writes.exists_decodeParts (by simp [partsOfField, Member.key]) (back f member) same
  change decodeParts membersOfField d = _ at read
  have assembled : parts.assembleField = .ok f := by
    simp_all [partsOfField, Parts.assembleField, Parts.labelOf, Parts.typeAt, bind, Except.bind]
  rw [read]
  exact assembled

/-- Cases are read back with the fields of their parameters. -/
theorem decodeCases_of_alike {cases : List (Case TypeExpr)}
    (back : ∀ c ∈ cases, ∀ row ∈ partsOfCase c, ReadsBack row) {items : List Document}
    (alike : List.Forall₂ Alike (encodeCases cases) items) : decodeCases items = .ok cases := by
  rw [encodeCases_eq, List.forall₂_map_left_iff] at alike
  rw [decodeCases_eq]
  refine mapM_eq_ok alike fun c member d same => ?_
  have writes : Writes (partsOfCase c)
      [("name", text c.name), ("parameters", list (encodeFields c.parameters))] := by
    simp [Writes, partsOfCase, Member.key, encodePart]
  obtain ⟨parts, read, found⟩ :=
    writes.exists_decodeParts (by simp [partsOfCase, Member.key]) (back c member) same
  change decodeParts membersOfCase d = _ at read
  have assembled : parts.assembleCase = .ok c := by
    simp_all [partsOfCase, Parts.assembleCase, Parts.labelOf, bind, Except.bind]
  rw [read]
  exact assembled

/-! ## Whole trees -/

/-- A node is read back, at the root of a definition and below it. -/
def NodeReadsBack (e : TypeExpr) : Prop :=
  ∀ positions d, (encodeType e).Alike d → decodeType positions d = .ok e

theorem readsBack_label (s : String) : ReadsBack (.label, .label s) := by
  intro d alike
  rw [decodePart, decodeText_of_alike alike]
  rfl

theorem readsBack_name (n : Name) : ReadsBack (.name, .name n) := by
  intro d alike
  rw [decodePart, eq_text_of_alike alike, decodeName, Name.parse_text]
  rfl

theorem readsBack_symbols (symbols : List String) : ReadsBack (.symbols, .symbols symbols) := by
  intro d alike
  cases alike with
  | list alike =>
      rw [decodePart, mapM_decodeText_of_alike alike]
      rfl

theorem readsBack_type {m : Member} {e : TypeExpr} (typed : m = .item ∨ m = .underlying ∨ m = .type)
    (back : NodeReadsBack e) : ReadsBack (m, .type e) := by
  intro d alike
  have read := back true d alike
  obtain rfl | rfl | rfl := typed <;> rw [decodePart, read] <;> rfl

theorem readsBack_fields {m : Member} {fields : List (Field TypeExpr)}
    (listed : m = .fields ∨ m = .parameters) (back : ∀ f ∈ fields, NodeReadsBack f.type) :
    ReadsBack (m, .fields fields) := by
  intro d alike
  cases alike with
  | @list _ items alike =>
      have read : decodeFields items = .ok fields := by
        refine decodeFields_of_alike (fun f member => ?_) alike
        rw [partsOfField, List.forall_mem_cons, List.forall_mem_singleton]
        exact ⟨readsBack_label f.name, readsBack_type (.inr (.inr rfl)) (back f member)⟩
      obtain rfl | rfl := listed <;> rw [decodePart, read] <;> rfl

theorem readsBack_cases {cases : List (Case TypeExpr)}
    (back : ∀ c ∈ cases, ∀ f ∈ c.parameters, NodeReadsBack f.type) :
    ReadsBack (.cases, .cases cases) := by
  intro d alike
  cases alike with
  | @list _ items alike =>
      have read : decodeCases items = .ok cases := by
        refine decodeCases_of_alike (fun c member => ?_) alike
        rw [partsOfCase, List.forall_mem_cons, List.forall_mem_singleton]
        exact ⟨readsBack_label c.name, readsBack_fields (.inr rfl) (back c member)⟩
      rw [decodePart, read]
      rfl

/-- **Every type tree is read back from what was written for it.** -/
theorem nodeReadsBack (e : TypeExpr) : NodeReadsBack e := by
  induction e using TypeExpr.inductionOnChildren with
  | step e below =>
      refine fun positions d alike => decodeType_of_parts ?_ positions alike
      cases e with
      | primitive p => exact nofun
      | array item | map item | optional item =>
          have back := below item List.mem_cons_self
          exact List.forall_mem_singleton.2 (readsBack_type (.inl rfl) back)
      | enum n symbols =>
          exact List.forall_mem_cons.2 ⟨readsBack_name n,
            List.forall_mem_singleton.2 (readsBack_symbols symbols)⟩
      | record n fields =>
          refine List.forall_mem_cons.2 ⟨readsBack_name n,
            List.forall_mem_singleton.2 (readsBack_fields (.inl rfl) fun f member => ?_)⟩
          exact below f.type (List.mem_map_of_mem member)
      | variant n cases =>
          refine List.forall_mem_cons.2 ⟨readsBack_name n,
            List.forall_mem_singleton.2 (readsBack_cases fun c chosen f member => ?_)⟩
          exact below f.type (TypeExpr.mem_children_of_parameter chosen member)
      | newtype n u =>
          have back := below u List.mem_cons_self
          exact List.forall_mem_cons.2 ⟨readsBack_name n,
            List.forall_mem_singleton.2 (readsBack_type (.inr (.inl rfl)) back)⟩
      | reference n => exact List.forall_mem_singleton.2 (readsBack_name n)

/-! ## Modules -/

theorem decodeDefinitions_of_alike {entries : List (Name × TypeExpr)}
    (each : List.Forall₂ (fun (m : String × Document) (e : Name × TypeExpr) =>
      m.1 = e.1.text ∧ (encodeType e.2).Alike m.2) members entries) :
    decodeDefinitions members = .ok entries := by
  induction each with
  | nil => rfl
  | @cons m e members entries first _ ih =>
      obtain ⟨key, d⟩ := m
      obtain ⟨rfl, alike⟩ := first
      rw [decodeDefinitions]
      simp only [decodeName, Name.parse_text, Except.mapError, nodeReadsBack e.2 false d alike, ih,
        bind, Except.bind]

/-- The definitions may come in any order, because a table lists them by their names. -/
theorem decodeTable_of_alike {m : Module} {d : Document}
    (alike : (object (m.definitions.entries.map fun d => (d.1.text, encodeType d.2))).Alike d) :
    decodeTable d = .ok m := by
  obtain ⟨moved, members, rfl, perm, pairs⟩ := alike.exists_moved
  have back : List.Forall₂ (fun (m : String × Document) (e : Name × TypeExpr) =>
      m.1 = e.1.text ∧ (encodeType e.2).Alike m.2) moved m.definitions.entries := by
    refine ((List.forall₂_map_left_iff.1 pairs).imp ?_).flip
    exact fun e m same => ⟨same.1.symm, same.2⟩
  obtain ⟨entries, each, permuted⟩ := List.perm_comp_forall₂ perm.symm back
  rw [decodeTable, decodeDefinitions_of_alike each]
  show Except.ok (Module.mk (NameMap.ofList entries)) = _
  rw [NameMap.ofList_of_perm permuted]

/-- **Every module is read back from what was written for it.** -/
theorem decodeModule_of_alike {m : Module} {d : Document} (alike : (encodeModule m).Alike d) :
    decodeModule d = .ok m := by
  obtain ⟨moved, members, rfl, perm, pairs⟩ := alike.exists_moved
  obtain ⟨⟨key, table⟩, rest, ⟨rfl, same⟩, none, rfl⟩ := List.forall₂_cons_left_iff.1 pairs
  cases none
  obtain rfl := List.singleton_perm.1 perm
  exact decodeTable_of_alike same

/-- **Documents are a faithful form of schemas.**  A type tree is read back from every document
that is the value written for it, whether or not its structure is sound, and so is a module.
Hence writing what was read from any document, however liberal its form, gives a document that
is read as the same schema and is written again as it stands. -/
theorem written_read_back :
    (∀ (positions : Bool) (e : TypeExpr) (d : Document), (encodeType e).Alike d →
        decodeType positions d = .ok e) ∧
      (∀ (m : Module) (d : Document), (encodeModule m).Alike d → decodeModule d = .ok m) ∧
      (∀ (positions : Bool) (d d' : Document), (decodeType positions d).map encodeType = .ok d' →
        decodeType positions d' = decodeType positions d ∧
          (decodeType positions d').map encodeType = .ok d') ∧
      ∀ d d' : Document, (decodeModule d).map encodeModule = .ok d' →
        decodeModule d' = decodeModule d ∧ (decodeModule d').map encodeModule = .ok d' := by
  refine ⟨fun positions e d => nodeReadsBack e positions d, fun m d => decodeModule_of_alike,
    fun positions d d' written => ?_, fun d d' written => ?_⟩
  · cases read : decodeType positions d with
    | error e =>
        rw [read] at written
        cases written
    | ok e =>
        rw [read] at written
        cases written
        have again := nodeReadsBack e positions _ (alike_refl (encodeType e))
        exact ⟨again, by rw [again]; rfl⟩
  · cases read : decodeModule d with
    | error e =>
        rw [read] at written
        cases written
    | ok m =>
        rw [read] at written
        cases written
        have again := decodeModule_of_alike (alike_refl (encodeModule m))
        exact ⟨again, by rw [again]; rfl⟩

/- A member that nobody asks for, and a case as a list without its parameters. -/
example : decodeType false (object [("note", null), ("kind", text "variant"),
    ("cases", list [list [text "A"]]), ("name", text "t.V")]) =
      .ok (.variant ⟨"t", "V", by decide⟩ [⟨"A", []⟩]) := by
  cbv

end Document

end SchemaData
