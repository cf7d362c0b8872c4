import SchemaData.Proofs.Growth
import SchemaData.Proofs.Sites

/-!
# SchemaData.Proofs.FirstFailure -- a check reports the first site that fails

`Module.Fails` says at which sites something is wrong, and what, each site for itself: a
payload of another shape than the node that bears it, a symbol or a case that is not declared,
a wrong number of components, a chain that ends at an undefined name or not at all.

The check of a site (`Module.report`) is a search.  `report_cases` is the step: it reports
what fails at the site, or else the first report from its parts, in their order.  Along paths,

* `fails_of_report`: what is reported fails, where the path says;
* `not_fails_of_report_none`: where nothing is reported, nothing fails, at or below;
* `not_fails_of_precedes`: nothing fails before what is reported.  The parts before the one
  that reports have reported nothing, and order tells them apart from those behind it.

`findMismatch_first` puts this together for a type with its module.
-/

namespace SchemaData

set_option autoImplicit false

/-- A payload does not fit the node that is to bear it, whatever stands inside. -/
inductive Unfit : TypeExpr → Payload → MismatchReason → Prop
  | shape {h : TypeExpr} {p : Payload} :
      h.shape ≠ p.shape → Unfit h p (.shape h.shape p.shape)
  | symbol {n : Name} {symbols : List String} {s : String} :
      s ∉ symbols → Unfit (.enum n symbols) (.enum s) (.unknownSymbol s)
  | case {n : Name} {cases : List (Case TypeExpr)} {name : String} {vs : List Value} :
      (∀ c ∈ cases, c.name ≠ name) →
      Unfit (.variant n cases) (.variant name vs) (.unknownCase name)
  | arity {n : Name} {fields : List (Field TypeExpr)} {vs : List Value} :
      fields.length ≠ vs.length →
      Unfit (.record n fields) (.record vs) (.arity fields.length vs.length)

namespace Module

/-- Something is wrong at a site, apart from its parts. -/
inductive Fails (m : Module) : Site → MismatchReason → Prop
  | unfit {e h : TypeExpr} {p : Payload} {reason : MismatchReason} :
      m.Settles e h → Unfit h p reason → Fails m (.node e p) reason
  | arity {parameters : List (Field TypeExpr)} {vs : List Value} :
      parameters.length ≠ vs.length →
      Fails m (.chosen parameters vs) (.arity parameters.length vs.length)
  | undefined {e : TypeExpr} {p : Payload} {x : Name} :
      m.Dangles e x → Fails m (.node e p) (.unresolvedReference x)
  | looping {e : TypeExpr} {p : Payload} {x : Name} :
      m.ComesAgain e x → Fails m (.node e p) (.indirectionCycle x)

/-- What the check reports of a site. -/
def report (m : Module) : Site → Option Mismatch
  | .node e p => m.findMismatch e p
  | .chosen parameters vs =>
      if parameters.length = vs.length then m.mismatchInComponents parameters vs
      else some (.atRoot (.arity parameters.length vs.length))

/-- The first report from parts of a site. -/
def reportIn (m : Module) (parts : List (Segment × Site)) : Option Mismatch :=
  parts.findSome? fun x => (m.report x.2).map (.within x.1)

variable {m : Module} {e h : TypeExpr} {p : Payload} {site last : Site} {path : List Segment}
  {f : Mismatch} {reason reason' : MismatchReason}

/-! ## One site -/

theorem reportIn_cons (s : Segment) (next : Site) (rest : List (Segment × Site)) :
    m.reportIn ((s, next) :: rest) =
      match m.report next with
      | some found => some (found.within s)
      | none => m.reportIn rest := by
  rw [reportIn, List.findSome?_cons]
  cases m.report next with
  | some found => rfl
  | none => rfl

theorem reportIn_singleton (s : Segment) (next : Site) :
    m.reportIn [(s, next)] = (m.report next).map (.within s) := by
  rw [reportIn_cons]
  cases m.report next with
  | some found => rfl
  | none => rfl

theorem mismatchInItems_eq {item : TypeExpr} {vs : List Value} (i : Nat) :
    m.mismatchInItems item i vs =
      m.reportIn ((vs.zipIdx i).map fun x => (.index x.2, .node item x.1.payload)) := by
  induction vs generalizing i with
  | nil => rfl
  | cons v vs ih =>
      rw [mismatchInItems, ← findMismatch, ih, List.zipIdx_cons, List.map_cons, reportIn_cons]
      rfl

theorem mismatchInEntries_eq {item : TypeExpr} {es : List (String × Value)} :
    m.mismatchInEntries item es =
      m.reportIn (es.map fun x => (.key x.1, .node item x.2.payload)) := by
  induction es with
  | nil => rfl
  | cons e es ih =>
      rw [mismatchInEntries, ← findMismatch, ih, List.map_cons, reportIn_cons]
      rfl

theorem mismatchInComponents_eq {fields : List (Field TypeExpr)} {vs : List Value} :
    m.mismatchInComponents fields vs = m.reportIn (componentParts fields vs) := by
  induction vs generalizing fields with
  | nil =>
      rw [componentParts, List.zip_nil_right]
      rfl
  | cons v vs ih =>
      cases fields with
      | nil => rfl
      | cons f fields =>
          rw [mismatchInComponents, ← findMismatch, ih, componentParts, componentParts,
            List.zip_cons_cons, List.map_cons, reportIn_cons]
          rfl

/-- Components are counted before they are looked at. -/
theorem report_chosen (m : Module) (fields : List (Field TypeExpr)) (vs : List Value) :
    (fields.length ≠ vs.length ∧
        m.report (.chosen fields vs) = some (.atRoot (.arity fields.length vs.length))) ∨
      (fields.length = vs.length ∧
        m.report (.chosen fields vs) = m.reportIn (componentParts fields vs)) := by
  rw [report]
  by_cases counted : fields.length = vs.length
  · rw [if_pos counted]
    exact .inr ⟨counted, mismatchInComponents_eq⟩
  · rw [if_neg counted]
    exact .inl ⟨counted, rfl⟩

theorem report_eq_of_settled (settled : m.head e = .settled h) :
    m.report (.node e p) = m.mismatchAtHead h p := by
  rw [report, findMismatch_of_settled settled]

theorem mismatchAtHead_cases (m : Module) (h : TypeExpr) (p : Payload) :
    (∃ reason, Unfit h p reason ∧ m.mismatchAtHead h p = some (.atRoot reason)) ∨
      ((∀ reason, ¬ Unfit h p reason) ∧ m.mismatchAtHead h p = m.reportIn (headParts h p)) := by
  cases p with
  | scalar s =>
      cases h with
      | primitive q =>
          rw [mismatchAtHead]
          by_cases same : q = s.kind
          · subst same
            rw [if_pos rfl]
            refine .inr ⟨?_, rfl⟩
            rintro _ ⟨different⟩
            exact different rfl
          · rw [if_neg same]
            exact .inl ⟨_, .shape fun alike => same (Shape.primitive.inj alike), rfl⟩
      | _ => exact .inl ⟨_, .shape (by simp [TypeExpr.shape, Payload.shape]), rfl⟩
  | array vs =>
      cases h with
      | array item =>
          refine .inr ⟨?_, mismatchInItems_eq 0⟩
          rintro _ ⟨different⟩
          exact different rfl
      | _ => exact .inl ⟨_, .shape (by simp [TypeExpr.shape, Payload.shape]), rfl⟩
  | map es =>
      cases h with
      | map item =>
          refine .inr ⟨?_, mismatchInEntries_eq⟩
          rintro _ ⟨different⟩
          exact different rfl
      | _ => exact .inl ⟨_, .shape (by simp [TypeExpr.shape, Payload.shape]), rfl⟩
  | optional content =>
      cases h with
      | optional item =>
          refine .inr ⟨?_, ?_⟩
          · rintro _ ⟨different⟩
            exact different rfl
          · cases content with
            | none => rfl
            | some v =>
                exact (reportIn_singleton .content (.node item v.payload)).symm
      | _ => exact .inl ⟨_, .shape (by simp [TypeExpr.shape, Payload.shape]), rfl⟩
  | enum s =>
      cases h with
      | enum n symbols =>
          rw [mismatchAtHead]
          by_cases member : s ∈ symbols
          · rw [if_pos member]
            refine .inr ⟨?_, rfl⟩
            rintro _ (different | missing)
            · exact different rfl
            · exact missing member
          · rw [if_neg member]
            exact .inl ⟨_, .symbol member, rfl⟩
      | _ => exact .inl ⟨_, .shape (by simp [TypeExpr.shape, Payload.shape]), rfl⟩
  | record vs =>
      cases h with
      | record n fields =>
          rcases report_chosen m fields vs with ⟨miscounted, found⟩ | ⟨counted, found⟩
          · exact .inl ⟨_, .arity miscounted, found⟩
          · refine .inr ⟨?_, found⟩
            rintro _ (different | _ | _ | miscounted)
            · exact different rfl
            · exact miscounted counted
      | _ => exact .inl ⟨_, .shape (by simp [TypeExpr.shape, Payload.shape]), rfl⟩
  | variant name vs =>
      cases h with
      | variant n cases =>
          rw [mismatchAtHead, headParts]
          cases chosen : cases.find? fun c => c.name = name with
          | none =>
              refine .inl ⟨_, .case fun c member same => ?_, rfl⟩
              simpa [same] using List.find?_eq_none.1 chosen c member
          | some c =>
              refine .inr ⟨?_, ?_⟩
              · rintro _ (different | _ | missing)
                · exact different rfl
                · have named := List.find?_some chosen
                  exact missing c (List.mem_of_find?_eq_some chosen) (of_decide_eq_true named)
              · exact (reportIn_singleton (.case name) (.chosen c.parameters vs)).symm
      | _ => exact .inl ⟨_, .shape (by simp [TypeExpr.shape, Payload.shape]), rfl⟩

/-- What can fail at a node depends on where its chain leads. -/
theorem fails_at_head (fails : m.Fails (.node e p) reason) :
    match m.head e with
    | .settled h => Unfit h p reason
    | .undefined x => reason = .unresolvedReference x
    | .looping _ => ∃ x, reason = .indirectionCycle x := by
  cases fails with
  | unfit settles unfit =>
      rw [settles_iff.1 settles]
      exact unfit
  | undefined dangles => rw [head_undefined_iff.2 dangles]
  | looping again =>
      obtain ⟨y, looping⟩ := exists_looping_iff.2 again.endless
      rw [looping]
      exact ⟨_, rfl⟩

/-- The check reports what fails at a site, or else the first report from its parts. -/
theorem report_cases (m : Module) (site : Site) :
    (∃ reason, m.Fails site reason ∧ m.report site = some (.atRoot reason)) ∨
      ((∀ reason, ¬ m.Fails site reason) ∧ m.report site = m.reportIn (m.parts site)) := by
  cases site with
  | chosen parameters vs =>
      rcases report_chosen m parameters vs with ⟨miscounted, found⟩ | ⟨counted, found⟩
      · exact .inl ⟨_, .arity miscounted, found⟩
      · refine .inr ⟨?_, found⟩
        rintro _ (_ | miscounted)
        exact miscounted counted
  | node e p =>
      cases answer : m.head e with
      | undefined x =>
          have dangles := head_undefined_iff.1 answer
          exact .inl ⟨_, .undefined dangles, findMismatch_of_undefined answer p⟩
      | looping x =>
          have again := comesAgain_of_looping answer
          exact .inl ⟨_, .looping again, findMismatch_of_looping answer p⟩
      | settled h =>
          rw [report_eq_of_settled answer, parts, answer]
          rcases mismatchAtHead_cases m h p with ⟨reason, unfit, found⟩ | ⟨fits, found⟩
          · exact .inl ⟨reason, .unfit (settles_iff.2 answer) unfit, found⟩
          · refine .inr ⟨?_, found⟩
            intro reason fails
            have unfit := fails_at_head fails
            rw [answer] at unfit
            exact fits reason unfit

theorem unfit_unique (unfit : Unfit h p reason) (unfit' : Unfit h p reason') :
    reason = reason' := by
  cases unfit with
  | shape different =>
      cases unfit' with
      | shape => rfl
      | symbol | case | arity => exact absurd rfl different
  | _ =>
      cases unfit' with
      | shape different => exact absurd rfl different
      | _ => rfl

/-- One thing fails at a site; but on a loop the names of several references come again. -/
theorem alike_of_fails (fails : m.Fails site reason) (fails' : m.Fails site reason') :
    reason.Alike reason' := by
  cases site with
  | chosen parameters vs =>
      cases fails
      cases fails'
      exact .same _
  | node e p =>
      have first := fails_at_head fails
      have second := fails_at_head fails'
      cases answer : m.head e with
      | settled h =>
          rw [answer] at first second
          rw [unfit_unique first second]
          exact .same reason'
      | undefined x =>
          rw [answer] at first second
          rw [first, second]
          exact .same (.unresolvedReference x)
      | looping y =>
          rw [answer] at first second
          obtain ⟨x, rfl⟩ := first
          obtain ⟨x', rfl⟩ := second
          exact .looping x x'

/-! ## Along paths -/

/-- A report is of the site itself, or of a part, and then the parts before it have
reported nothing. -/
theorem report_eq_some (found : m.report site = some f) :
    (f.path = [] ∧ m.Fails site f.reason) ∨
      ((∀ reason, ¬ m.Fails site reason) ∧
        ∃ before s next after inner, m.parts site = before ++ (s, next) :: after ∧
          m.report next = some inner ∧ f = inner.within s ∧
          ∀ x ∈ before, m.report x.2 = none) := by
  rcases report_cases m site with ⟨reason, fails, root⟩ | ⟨fits, parts⟩
  · rw [root] at found
    cases found
    exact .inl ⟨rfl, fails⟩
  · rw [parts, reportIn] at found
    obtain ⟨before, ⟨s, next⟩, after, split, here, nothing⟩ := List.findSome?_eq_some_iff.1 found
    obtain ⟨inner, reported, same⟩ := Option.map_eq_some_iff.1 here
    refine .inr ⟨fits, before, s, next, after, inner, split, reported, same.symm, ?_⟩
    intro x member
    exact Option.map_eq_none_iff.1 (nothing x member)

/-- What is reported fails, where the path says. -/
theorem fails_of_report (found : m.report site = some f) :
    ∃ last, m.LeadsTo f.path site last ∧ m.Fails last f.reason := by
  obtain ⟨path, reason⟩ := f
  induction path generalizing site with
  | nil =>
      rcases report_eq_some found with
        ⟨-, fails⟩ | ⟨-, before, s, next, after, inner, split, reported, same, -⟩
      · exact ⟨site, .here, fails⟩
      · cases same
  | cons s path ih =>
      rcases report_eq_some found with
        ⟨root, -⟩ | ⟨-, before, s, next, after, inner, split, reported, same, -⟩
      · cases root
      · cases same
        obtain ⟨last, leads, fails⟩ := ih reported
        have member : (s, next) ∈ m.parts site := by
          rw [split]
          exact List.mem_append_cons_self
        exact ⟨last, .step (mem_parts_iff.1 member) leads, fails⟩

/-- Where nothing is reported, nothing fails. -/
theorem not_fails_of_report_none (nothing : m.report site = none)
    (leads : m.LeadsTo path site last) (reason : MismatchReason) : ¬ m.Fails last reason := by
  induction leads with
  | @here site =>
      rcases report_cases m site with ⟨r, -, root⟩ | ⟨fits, -⟩
      · rw [root] at nothing
        cases nothing
      · exact fits reason
  | @step site next last s path enters _ ih =>
      rcases report_cases m site with ⟨r, -, root⟩ | ⟨-, parts⟩
      · rw [root] at nothing
        cases nothing
      · rw [parts, reportIn, List.findSome?_eq_none_iff] at nothing
        exact ih (Option.map_eq_none_iff.1 (nothing _ (mem_parts_iff.2 enters)))

/-- Nothing fails before what is reported. -/
theorem not_fails_of_precedes (orderly : m.Orderly site) (found : m.report site = some f)
    (precedes : m.Precedes site path f.path) (leads : m.LeadsTo path site last)
    (reason : MismatchReason) : ¬ m.Fails last reason := by
  induction leads generalizing f with
  | here =>
      rcases report_eq_some found with ⟨root, -⟩ | ⟨fits, -⟩
      · rw [root] at precedes
        cases precedes
      · exact fits reason
  | @step site next last s path enters rest ih =>
      rcases report_eq_some found with
        ⟨root, -⟩ | ⟨-, before, s', next', after, inner, split, reported, same, nothing⟩
      · rw [root] at precedes
        cases precedes
      · rw [same] at precedes
        cases precedes with
        | beside earlier =>
            -- The part is one of those before: at the one that reports or behind it, the
            -- order of the parts would go both ways.
            have ascending := parts_ascending orderly
            have member := mem_parts_iff.2 enters
            rw [split] at ascending member
            obtain ⟨behind, -⟩ := List.pairwise_cons.1 (List.pairwise_append.1 ascending).2.1
            rcases List.mem_append.1 member with first | later
            · exact not_fails_of_report_none (nothing _ first) rest reason
            · rcases List.mem_cons.1 later with here | after
              · cases here
                exact absurd earlier (earlier_asymm orderly earlier)
              · exact absurd earlier (earlier_asymm orderly (behind _ after))
        | deeper entered inside =>
            have enters' : m.Enters site s next' := by
              rw [← mem_parts_iff, split]
              exact List.mem_append_cons_self
            obtain rfl := enters_unique orderly enters enters'
            obtain rfl := enters_unique orderly enters entered
            exact ih (orderly.enter enters) reported inside

/-- What passes `checkStructure` has no two fields of one owner under one name. -/
theorem orderly_of_structure
    (definitions : ∀ n e, m.get? n = some e → e.checkStructure = .ok ())
    (structured : e.checkStructure = .ok ()) (ascend : p.KeysAscend) :
    m.Orderly (.node e p) := by
  refine .node (throughout_of_nodes ?_ ?_) ascend
  · exact (TypeExpr.checkStructure_eq_ok_iff e).1 structured
  · intro d member
    have found : m.get? d.1 = some d.2 := NameMap.get?_eq_some_iff.2 member
    exact (TypeExpr.checkStructure_eq_ok_iff d.2).1 (definitions d.1 d.2 found)

end Module

/-- **The check reports the first site that fails.**  Let the definitions of a module and a
type pass `checkStructure`, and let the keys of the maps in a payload ascend, as they do in
every map of entries (`Payload.keysAscend_ofEntries`).  Then what the check reports is so:

* its path leads to one site, where what it reports fails, and nothing else does (but a loop
  may be known by several names);
* nothing fails at a site to which a path leads that precedes this one;
* and so every site that fails is this one or comes after it. -/
theorem findMismatch_first (t : BoundType) (p : Payload) (f : Mismatch)
    (definitions : ∀ n e, t.home.module.get? n = some e → e.checkStructure = .ok ())
    (structured : t.expr.checkStructure = .ok ()) (ascend : p.KeysAscend)
    (found : t.findMismatch p = some f) :
    (∃ last, t.home.module.LeadsTo f.path (.node t.expr p) last ∧
        (∀ last', t.home.module.LeadsTo f.path (.node t.expr p) last' → last' = last) ∧
        t.home.module.Fails last f.reason ∧
        ∀ reason, t.home.module.Fails last reason → reason.Alike f.reason) ∧
      (∀ path last, t.home.module.LeadsTo path (.node t.expr p) last →
        t.home.module.Precedes (.node t.expr p) path f.path →
        ∀ reason, ¬ t.home.module.Fails last reason) ∧
      ∀ path last reason, t.home.module.LeadsTo path (.node t.expr p) last →
        t.home.module.Fails last reason →
        path = f.path ∨ t.home.module.Precedes (.node t.expr p) f.path path := by
  have orderly := Module.orderly_of_structure definitions structured ascend
  have reported : t.home.module.report (.node t.expr p) = some f := found
  obtain ⟨last, leads, fails⟩ := Module.fails_of_report reported
  refine ⟨⟨last, leads, ?_, fails, ?_⟩, ?_, ?_⟩
  · intro last' leads'
    exact Module.leadsTo_unique orderly leads' leads
  · intro reason other
    exact Module.alike_of_fails other fails
  · intro path last' leads' precedes
    exact Module.not_fails_of_precedes orderly reported precedes leads'
  · intro path last' reason leads' fails'
    rcases Module.precedes_total orderly leads' leads with same | before | after
    · exact .inl same
    · exact absurd fails' (Module.not_fails_of_precedes orderly reported before leads' reason)
    · exact .inr after

namespace Example

def shift : Name := ⟨"rota", "Shift", by decide⟩

def shiftNode : TypeExpr :=
  .variant shift [⟨"free", []⟩,
    ⟨"busy", [⟨"hours", .newtype ⟨"rota", "Hours", by decide⟩ (.primitive .int32)⟩]⟩]

/-- The shifts of every day of a week. -/
def rota : BoundType :=
  ⟨⟨4, ⟨.ofList [(shift, shiftNode)]⟩⟩, .map (.array (.reference shift))⟩

def busy (hours : Scalar) : Payload :=
  .variant "busy" [⟨rota, .scalar hours⟩]

/-- Two shifts are wrong: a busy one has a text for its hours, and a case is not declared. -/
def twoWrong : Payload :=
  .ofEntries [("tue", ⟨rota, .array [⟨rota, .variant "off" []⟩]⟩),
    ("mon", ⟨rota, .array [⟨rota, busy (.int32 6)⟩, ⟨rota, busy (.string "six")⟩]⟩)]

theorem twoWrong_keysAscend : twoWrong.KeysAscend := by
  have hours : ∀ h, (busy h).KeysAscend := fun h =>
    .mk nofun (List.forall_mem_singleton.2 (.mk nofun nofun))
  have tuesday : (Payload.array [⟨rota, .variant "off" []⟩]).KeysAscend :=
    .mk nofun (List.forall_mem_singleton.2 (.mk nofun nofun))
  have monday : (Payload.array
      [⟨rota, busy (.int32 6)⟩, ⟨rota, busy (.string "six")⟩]).KeysAscend :=
    .mk nofun (List.forall_mem_cons.2 ⟨hours _, List.forall_mem_singleton.2 (hours _)⟩)
  exact Payload.keysAscend_ofEntries
    (List.forall_mem_cons.2 ⟨tuesday, List.forall_mem_singleton.2 monday⟩)

end Example

open Example in
/-- The shift with a text for its hours is reported, because its day has the lesser key. -/
theorem findMismatch_first_rota :
    let path : List Segment := [.key "mon", .index 1, .case "busy", .field "hours"]
    rota.findMismatch twoWrong =
        some ⟨path, .shape (.primitive .int32) (.primitive .string)⟩ ∧
      ∀ path' last reason, rota.home.module.LeadsTo path' (.node rota.expr twoWrong) last →
        rota.home.module.Fails last reason →
        path' = path ∨ rota.home.module.Precedes (.node rota.expr twoWrong) path path' := by
  have definitions : ∀ n e, rota.home.module.get? n = some e → e.checkStructure = .ok () := by
    intro n e found
    have entry : (n, e) ∈ [(shift, shiftNode)] := NameMap.get?_eq_some_iff.1 found
    cases List.mem_singleton.1 entry
    rfl
  have found : rota.findMismatch twoWrong =
      some ⟨[.key "mon", .index 1, .case "busy", .field "hours"],
        .shape (.primitive .int32) (.primitive .string)⟩ := by decide
  have first := findMismatch_first rota twoWrong _ definitions rfl twoWrong_keysAscend found
  exact ⟨found, first.2.2⟩

end SchemaData
