import SchemaData.Proofs.Indirection

/-!
# SchemaData.Proofs.Sites -- the sites at which a check looks

A path leads from a payload and the node that it is to fit to a `Site` inside: a component
with the node declared for it, or the components of a chosen case with its parameters.  One
segment enters one part of a site (`Module.Enters`), seeing through newtypes and references
(`Module.Settles`), and a path is any number of such steps (`Module.LeadsTo`).

Paths are in the order of a traversal that looks at a site before its parts, and at the parts
in the order of items, of keys, or of declared fields (`Module.Precedes`).

All this is said without the check.  `Module.parts` lists the parts of a site in the order in
which a traversal comes to them:

* `mem_parts_iff`: it lists exactly what a segment enters;
* `parts_ascending`: in order, where the keys of maps ascend;
* `enters_unique`, `leadsTo_unique`: and each under a segment of its own, so that a path leads
  to one site, where no two fields of a record or of a case have one name;
* `precedes_total`: then of two sites one comes before the other.

`Module.Orderly` puts these conditions together; they go down to the parts of a site.
-/

namespace SchemaData

set_option autoImplicit false

/-- What a check judges. -/
inductive Site
  /-- A payload, against the node that it is to fit. -/
  | node (e : TypeExpr) (p : Payload)
  /-- The components of a chosen case, against its parameters. -/
  | chosen (parameters : List (Field TypeExpr)) (vs : List Value)

/-- The entries of every map in a payload ascend by their keys. -/
inductive Payload.KeysAscend : Payload → Prop
  | mk {p : Payload} : (∀ es, p = .map es → Sorted.Ascending es) →
      (∀ v ∈ p.items, v.payload.KeysAscend) → p.KeysAscend

theorem Payload.KeysAscend.inside {p : Payload} (ascend : p.KeysAscend) {v : Value}
    (member : v ∈ p.items) : v.payload.KeysAscend := by
  cases ascend with
  | mk _ inside => exact inside v member

theorem Payload.KeysAscend.entries {es : List (String × Value)}
    (ascend : (Payload.map es).KeysAscend) : Sorted.Ascending es := by
  cases ascend with
  | mk entries _ => exact entries es rfl

/-- The keys ascend in the maps that are built from entries. -/
theorem Payload.keysAscend_ofEntries {es : List (String × Value)}
    (each : ∀ e ∈ es, e.2.payload.KeysAscend) : (ofEntries es).KeysAscend := by
  refine .mk ?_ ?_
  · rintro _ ⟨⟩
    exact Sorted.ofList_ascending String.lt_trans Std.lt_trichotomy es
  · intro v member
    obtain ⟨e, entry, rfl⟩ := List.mem_map.1 member
    exact each e (Sorted.mem_ofList entry)

namespace Module

/-! ## Paths -/

/-- Newtypes unwrapped and references resolved, a node is one that bears a payload. -/
def Settles (m : Module) (e h : TypeExpr) : Prop :=
  h.isIndirect = false ∧ ∃ k, m.chain k e = some h

/-- The fields that are declared for the components at a site. -/
inductive Declares (m : Module) : Site → List (Field TypeExpr) → List Value → Prop
  | record {e : TypeExpr} {n : Name} {fields : List (Field TypeExpr)} {vs : List Value} :
      m.Settles e (.record n fields) → Declares m (.node e (.record vs)) fields vs
  | chosen {fields : List (Field TypeExpr)} {vs : List Value} :
      Declares m (.chosen fields vs) fields vs

/-- A segment leads from a site to one of its parts. -/
inductive Enters (m : Module) : Site → Segment → Site → Prop
  | index {e item : TypeExpr} {vs : List Value} {i : Nat} {v : Value} :
      m.Settles e (.array item) → vs[i]? = some v →
      Enters m (.node e (.array vs)) (.index i) (.node item v.payload)
  | key {e item : TypeExpr} {es : List (String × Value)} {k : String} {v : Value} :
      m.Settles e (.map item) → (k, v) ∈ es →
      Enters m (.node e (.map es)) (.key k) (.node item v.payload)
  | content {e item : TypeExpr} {v : Value} :
      m.Settles e (.optional item) →
      Enters m (.node e (.optional (some v))) .content (.node item v.payload)
  | field {site : Site} {fields : List (Field TypeExpr)} {vs : List Value}
      {f : Field TypeExpr} {v : Value} :
      m.Declares site fields vs → (f, v) ∈ fields.zip vs →
      Enters m site (.field f.name) (.node f.type v.payload)
  | case {e : TypeExpr} {n : Name} {cases : List (Case TypeExpr)} {c : Case TypeExpr}
      {name : String} {vs : List Value} :
      m.Settles e (.variant n cases) → cases.find? (fun c => c.name = name) = some c →
      Enters m (.node e (.variant name vs)) (.case name) (.chosen c.parameters vs)

/-- A path leads from a site to one inside it. -/
inductive LeadsTo (m : Module) : List Segment → Site → Site → Prop
  | here {site : Site} : LeadsTo m [] site site
  | step {site next last : Site} {s : Segment} {path : List Segment} :
      m.Enters site s next → LeadsTo m path next last → LeadsTo m (s :: path) site last

/-- A traversal comes to one part of a site before another. -/
inductive Earlier (m : Module) (site : Site) : Segment → Segment → Prop
  | index {i j : Nat} : i < j → Earlier m site (.index i) (.index j)
  | key {k l : String} : k < l → Earlier m site (.key k) (.key l)
  | field {fields : List (Field TypeExpr)} {vs : List Value} {i j : Nat} {a b : String} :
      m.Declares site fields vs → i < j →
      (fields.map (·.name))[i]? = some a → (fields.map (·.name))[j]? = some b →
      Earlier m site (.field a) (.field b)

/-- A traversal from a site comes to one path before another. -/
inductive Precedes (m : Module) : Site → List Segment → List Segment → Prop
  | inside {site : Site} {s : Segment} {path : List Segment} : Precedes m site [] (s :: path)
  | beside {site : Site} {s s' : Segment} {path path' : List Segment} :
      m.Earlier site s s' → Precedes m site (s :: path) (s' :: path')
  | deeper {site next : Site} {s : Segment} {path path' : List Segment} :
      m.Enters site s next → Precedes m next path path' →
      Precedes m site (s :: path) (s :: path')

variable {m : Module} {e h h' c : TypeExpr} {site next next' last last' : Site}
  {s s' : Segment} {path path' : List Segment} {P : TypeExpr → Prop}

theorem settles_iff : m.Settles e h ↔ m.head e = .settled h :=
  head_settled_iff.symm

theorem settles_unique (settles : m.Settles e h) (settles' : m.Settles e h') : h = h' := by
  rw [settles_iff] at settles settles'
  rw [settles] at settles'
  exact Head.settled.inj settles'

/-- What holds throughout holds of the children of the node that bears the payload. -/
theorem Throughout.child (all : m.Throughout P e) (settles : m.Settles e h)
    (child : c ∈ h.children) : m.Throughout P c := by
  obtain ⟨-, k, reached⟩ := settles
  exact (all.later (reaches_of_chain reached)).next (.child child)

/-! ## The parts of a site -/

/-- The components for which there are fields. -/
def componentParts (fields : List (Field TypeExpr)) (vs : List Value) : List (Segment × Site) :=
  (fields.zip vs).map fun x => (.field x.1.name, .node x.1.type x.2.payload)

/-- The parts of a payload, as the node prescribes that bears it. -/
def headParts : TypeExpr → Payload → List (Segment × Site)
  | .array item, .array vs => vs.zipIdx.map fun x => (.index x.2, .node item x.1.payload)
  | .map item, .map es => es.map fun x => (.key x.1, .node item x.2.payload)
  | .optional item, .optional (some v) => [(.content, .node item v.payload)]
  | .record _ fields, .record vs => componentParts fields vs
  | .variant _ cases, .variant name vs =>
      match cases.find? fun c => c.name = name with
      | some c => [(.case name, .chosen c.parameters vs)]
      | none => []
  | _, _ => []

/-- The parts of a site, in the order of a traversal. -/
def parts (m : Module) : Site → List (Segment × Site)
  | .chosen fields vs => componentParts fields vs
  | .node e p =>
      match m.head e with
      | .settled h => headParts h p
      | _ => []

theorem mem_headParts_iff {p : Payload} (settles : m.Settles e h) :
    (s, next) ∈ headParts h p ↔ m.Enters (.node e p) s next := by
  constructor
  · intro member
    unfold headParts at member
    split at member
    · obtain ⟨⟨v, i⟩, held, same⟩ := List.mem_map.1 member
      cases same
      exact .index settles (List.mem_zipIdx_iff_getElem?.1 held)
    · obtain ⟨⟨k, v⟩, held, same⟩ := List.mem_map.1 member
      cases same
      exact .key settles held
    · cases List.mem_singleton.1 member
      exact .content settles
    · obtain ⟨⟨f, v⟩, held, same⟩ := List.mem_map.1 member
      cases same
      exact .field (.record settles) held
    · split at member
      · rename_i chosen
        cases List.mem_singleton.1 member
        exact .case settles chosen
      · cases member
    · cases member
  · intro enters
    cases enters with
    | index settles' found =>
        obtain rfl := settles_unique settles settles'
        exact List.mem_map.2 ⟨(_, _), List.mem_zipIdx_iff_getElem?.2 found, rfl⟩
    | key settles' held =>
        obtain rfl := settles_unique settles settles'
        exact List.mem_map.2 ⟨(_, _), held, rfl⟩
    | content settles' =>
        obtain rfl := settles_unique settles settles'
        exact List.mem_singleton.2 rfl
    | field declares held =>
        cases declares with
        | record settles' =>
            obtain rfl := settles_unique settles settles'
            exact List.mem_map.2 ⟨(_, _), held, rfl⟩
    | case settles' chosen =>
        obtain rfl := settles_unique settles settles'
        simp only [headParts, chosen, List.mem_singleton]

/-- The list of the parts of a site misses none of them. -/
theorem mem_parts_iff : (s, next) ∈ m.parts site ↔ m.Enters site s next := by
  cases site with
  | chosen fields vs =>
      constructor
      · intro member
        obtain ⟨⟨f, v⟩, held, same⟩ := List.mem_map.1 member
        cases same
        exact .field .chosen held
      · intro enters
        cases enters with
        | field declares held =>
            cases declares
            exact List.mem_map.2 ⟨(_, _), held, rfl⟩
  | node e p =>
      cases answer : m.head e with
      | settled h =>
          rw [parts, answer]
          exact mem_headParts_iff (settles_iff.2 answer)
      | undefined x | looping x =>
          have unsettled : ∀ h, ¬ m.Settles e h := fun h settles => by
            rw [settles_iff, answer] at settles
            cases settles
          simp only [parts, answer, List.not_mem_nil, false_iff]
          intro enters
          cases enters with
          | index settles _ | key settles _ | content settles | case settles _ =>
              exact unsettled _ settles
          | field declares _ =>
              cases declares with
              | record settles => exact unsettled _ settles

/-! ## Places in order -/

/-- At and below a site, no two fields of one owner have one name, and the keys of maps
ascend. -/
inductive Orderly (m : Module) : Site → Prop
  | node {e : TypeExpr} {p : Payload} :
      m.Throughout (fun e => e.checkLocal = .ok ()) e → p.KeysAscend → Orderly m (.node e p)
  | chosen {fields : List (Field TypeExpr)} {vs : List Value} :
      (fields.map (·.name)).Nodup →
      (∀ f ∈ fields, m.Throughout (fun e => e.checkLocal = .ok ()) f.type) →
      (∀ v ∈ vs, v.payload.KeysAscend) → Orderly m (.chosen fields vs)

/-- The components of a record are in the same order as those of a chosen case. -/
theorem Orderly.declared {fields : List (Field TypeExpr)} {vs : List Value}
    (orderly : m.Orderly site) (declares : m.Declares site fields vs) :
    m.Orderly (.chosen fields vs) := by
  cases declares with
  | chosen => exact orderly
  | record settles =>
      cases orderly with
      | node sound ascend =>
          obtain ⟨k, reached⟩ := settles.2
          have head := (sound.later (reaches_of_chain reached)).here
          refine .chosen (TypeExpr.nodup_of_checkLocal_record head) ?_ fun v => ascend.inside
          intro f member
          exact sound.child settles (List.mem_map_of_mem member)

theorem Orderly.enter (orderly : m.Orderly site) (enters : m.Enters site s next) :
    m.Orderly next := by
  cases enters with
  | field declares held =>
      cases orderly.declared declares with
      | chosen _ sound ascend =>
          obtain ⟨declared, held⟩ := List.of_mem_zip held
          exact .node (sound _ declared) (ascend _ held)
  | index settles found =>
      cases orderly with
      | node sound ascend =>
          exact .node (sound.child settles List.mem_cons_self)
            (ascend.inside (List.mem_of_getElem? found))
  | key settles held =>
      cases orderly with
      | node sound ascend =>
          exact .node (sound.child settles List.mem_cons_self)
            (ascend.inside (List.mem_map_of_mem held))
  | content settles =>
      cases orderly with
      | node sound ascend =>
          exact .node (sound.child settles List.mem_cons_self) (ascend.inside List.mem_cons_self)
  | case settles chosen =>
      cases orderly with
      | node sound ascend =>
          obtain ⟨k, reached⟩ := settles.2
          have head := (sound.later (reaches_of_chain reached)).here
          have member := List.mem_of_find?_eq_some chosen
          have distinct := TypeExpr.nodup_of_checkLocal_variant head member
          refine .chosen distinct ?_ fun v => ascend.inside
          intro f parameter
          exact sound.child settles (TypeExpr.mem_children_of_parameter member parameter)

theorem componentParts_ascending {fields : List (Field TypeExpr)} {vs : List Value}
    (declares : m.Declares site fields vs) :
    (componentParts fields vs).Pairwise fun a b => m.Earlier site a.1 b.1 := by
  rw [componentParts, List.pairwise_map, List.pairwise_iff_getElem]
  intro i j hi hj less
  have named : ∀ k (hk : k < (fields.zip vs).length),
      (fields.map (·.name))[k]? = some (fields.zip vs)[k].1.name := by
    intro k hk
    rw [List.length_zip] at hk
    rw [List.getElem_zip, List.getElem?_map, List.getElem?_eq_getElem (by omega), Option.map_some]
  exact .field declares less (named i hi) (named j hj)

/-- The list of the parts of a site is in the order of a traversal. -/
theorem parts_ascending (orderly : m.Orderly site) :
    (m.parts site).Pairwise fun a b => m.Earlier site a.1 b.1 := by
  cases orderly with
  | chosen => exact componentParts_ascending .chosen
  | @node e p _ ascend =>
      cases answer : m.head e with
      | undefined x | looping x =>
          rw [parts, answer]
          exact .nil
      | settled h =>
          rw [parts, answer]
          dsimp only
          unfold headParts
          split
          · rw [List.pairwise_map, List.pairwise_iff_getElem]
            intro i j hi hj less
            simp only [List.getElem_zipIdx, Nat.zero_add]
            exact .index less
          · rw [List.pairwise_map]
            exact ascend.entries.imp fun less => .key less
          · exact List.pairwise_singleton _ _
          · exact componentParts_ascending (.record (settles_iff.2 answer))
          · split
            · exact List.pairwise_singleton _ _
            · exact .nil
          · exact .nil

theorem earlier_asymm (orderly : m.Orderly site) (earlier : m.Earlier site s s') :
    ¬ m.Earlier site s' s := by
  intro later
  cases earlier with
  | index less =>
      cases later with
      | index less' => exact Nat.lt_asymm less less'
  | key less =>
      cases later with
      | key less' => exact String.lt_irrefl _ (String.lt_trans less less')
  | @field fields vs i j a b declares less first second =>
      cases later with
      | @field fields' vs' i' j' _ _ declares' less' second' first' =>
          have same : fields' = fields := by
            cases declares with
            | chosen =>
                cases declares'
                rfl
            | record settles =>
                cases declares' with
                | record settles' => exact (TypeExpr.record.inj (settles_unique settles' settles)).2
          subst same
          cases orderly.declared declares with
          | chosen distinct =>
              have position : ∀ {i j : Nat} {a : String},
                  (fields'.map (·.name))[i]? = some a → (fields'.map (·.name))[j]? = some a →
                  i = j := by
                intro i j a here there
                obtain ⟨bound, -⟩ := List.getElem?_eq_some_iff.1 here
                exact (List.getElem?_inj bound distinct).1 (here.trans there.symm)
              have := position first first'
              have := position second second'
              omega

/-- Of two parts of a site one comes before the other. -/
theorem enters_total (orderly : m.Orderly site) (enters : m.Enters site s next)
    (enters' : m.Enters site s' next') :
    (s = s' ∧ next = next') ∨ m.Earlier site s s' ∨ m.Earlier site s' s := by
  obtain ⟨i, hi, here⟩ := List.mem_iff_getElem.1 (mem_parts_iff.2 enters)
  obtain ⟨j, hj, there⟩ := List.mem_iff_getElem.1 (mem_parts_iff.2 enters')
  have ascending := List.pairwise_iff_getElem.1 (parts_ascending orderly)
  rcases Nat.lt_trichotomy i j with less | rfl | less
  · have earlier := ascending i j hi hj less
    rw [here, there] at earlier
    exact .inr (.inl earlier)
  · rw [here] at there
    exact .inl (Prod.mk.inj there)
  · have earlier := ascending j i hj hi less
    rw [here, there] at earlier
    exact .inr (.inr earlier)

theorem enters_unique (orderly : m.Orderly site) (enters : m.Enters site s next)
    (enters' : m.Enters site s next') : next = next' := by
  rcases enters_total orderly enters enters' with ⟨-, same⟩ | earlier | earlier
  · exact same
  all_goals exact absurd earlier (earlier_asymm orderly earlier)

/-- A path leads to one site. -/
theorem leadsTo_unique (orderly : m.Orderly site) (leads : m.LeadsTo path site last)
    (leads' : m.LeadsTo path site last') : last = last' := by
  induction leads with
  | here =>
      cases leads'
      rfl
  | step enters _ ih =>
      cases leads' with
      | step enters' rest =>
          obtain rfl := enters_unique orderly enters enters'
          exact ih (orderly.enter enters) rest

/-- Of two sites inside a site one comes before the other. -/
theorem precedes_total (orderly : m.Orderly site) (leads : m.LeadsTo path site last)
    (leads' : m.LeadsTo path' site last') :
    path = path' ∨ m.Precedes site path path' ∨ m.Precedes site path' path := by
  induction leads generalizing path' with
  | here =>
      cases leads' with
      | here => exact .inl rfl
      | step => exact .inr (.inl .inside)
  | step enters _ ih =>
      cases leads' with
      | here => exact .inr (.inr .inside)
      | step enters' rest =>
          rcases enters_total orderly enters enters' with ⟨rfl, rfl⟩ | earlier | earlier
          · rcases ih (orderly.enter enters) rest with rfl | before | before
            · exact .inl rfl
            · exact .inr (.inl (.deeper enters before))
            · exact .inr (.inr (.deeper enters before))
          · exact .inr (.inl (.beside earlier))
          · exact .inr (.inr (.beside earlier))

end Module

end SchemaData
