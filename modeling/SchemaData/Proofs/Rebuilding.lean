import Mathlib.Data.List.Basic
import SchemaData.Proofs.Reach

/-!
# SchemaData.Proofs.Rebuilding -- one node at a time, or the whole tree at once

The constructors refuse a node that breaks a rule when it is made; `checkStructure` looks for
such nodes in a tree that is there already.  `TypeExpr.rebuild` makes a tree again from its
leaves up, with these constructors alone, and `comesThrough` says that it succeeds exactly when
the whole tree passes, and then with the tree that it began with.  This goes up the tree by the
rules of `Returns`, one for each way in which a node is made from its parts.

The rules of a node are said without the checks: `KeepsRules` is what it must satisfy, and
`Breaks` says which error is due when it does not.  A path leads from a tree to a node of it
(`at?`), and paths are ordered lexicographically, which is the order of the nodes in pre-order.
A tree passes when its root does and then its children do, in turn (`checkStructure_eq`); from
this, by induction on the tree, the error of a tree is the one due at the first path to a node
that breaks a rule (`checkStructure_eq_error_iff`).
-/

namespace SchemaData

set_option autoImplicit false

/-! ## Checks of lists -/

/-- An element that stands in the list for the second time, behind elements that are pairwise
distinct. -/
def FirstRepeat (xs : List String) (x : String) : Prop :=
  ∃ before after, xs = before ++ x :: after ∧ before.Nodup ∧ x ∈ before

theorem firstRepeatAfter_eq_some_iff {seen xs : List String} {x : String} :
    firstRepeatAfter seen xs = some x ↔ ∃ before after, xs = before ++ x :: after ∧
      before.Nodup ∧ (∀ y ∈ before, y ∉ seen) ∧ (x ∈ before ∨ x ∈ seen) := by
  induction xs generalizing seen with
  | nil => simp [firstRepeatAfter]
  | cons z xs ih =>
      by_cases again : z ∈ seen
      · simp only [firstRepeatAfter, again, if_true, Option.some.injEq]
        constructor
        · rintro rfl
          exact ⟨[], xs, rfl, .nil, by simp, .inr again⟩
        · rintro ⟨before, after, same, -, fresh, -⟩
          cases before with
          | nil => exact (List.cons.inj same).1
          | cons y before =>
              obtain ⟨rfl, -⟩ := List.cons.inj same
              exact absurd again (fresh z List.mem_cons_self)
      · simp only [firstRepeatAfter, again, if_false, ih]
        constructor
        · rintro ⟨before, after, rfl, distinct, fresh, repeated⟩
          refine ⟨z :: before, after, rfl, ?_, ?_, ?_⟩
          · exact List.nodup_cons.2 ⟨fun member => fresh z member List.mem_cons_self, distinct⟩
          · exact List.forall_mem_cons.2
              ⟨again, fun y member seen => fresh y member (List.mem_cons_of_mem _ seen)⟩
          · simp only [List.mem_cons] at repeated ⊢
            tauto
        · rintro ⟨before, after, same, distinct, fresh, repeated⟩
          cases before with
          | nil =>
              obtain ⟨rfl, -⟩ := List.cons.inj same
              exact absurd repeated (by simpa using again)
          | cons y before =>
              obtain ⟨rfl, rfl⟩ := List.cons.inj same
              obtain ⟨new, distinct⟩ := List.nodup_cons.1 distinct
              refine ⟨before, after, rfl, distinct, fun y member => ?_, ?_⟩
              · have unequal : y ≠ z := fun same => new (same ▸ member)
                simp [unequal, fresh y (List.mem_cons_of_mem _ member)]
              · simp only [List.mem_cons] at repeated ⊢
                tauto

theorem firstRepeat?_eq_some_iff {xs : List String} {x : String} :
    firstRepeat? xs = some x ↔ FirstRepeat xs x := by
  simp [firstRepeat?, firstRepeatAfter_eq_some_iff, FirstRepeat]

theorem checkDistinct_eq_error_iff {item : Item} {owner : Name} {items : List String}
    {error : SchemaError} : checkDistinct item owner items = .error error ↔
      ∃ x, FirstRepeat items x ∧ error = .duplicate item x owner := by
  simp only [← firstRepeat?_eq_some_iff, checkDistinct]
  cases firstRepeat? items with
  | none => simp
  | some x => simp [eq_comm]

/-- A check of a list in turn fails at the least place at which an element does. -/
theorem forM_eq_error_iff_getElem? {ε α : Type} {check : α → Except ε Unit} {xs : List α}
    {e : ε} : xs.forM check = .error e ↔ ∃ (i : Nat) (x : α), xs[i]? = some x ∧
      check x = .error e ∧ ∀ j < i, ∀ y, xs[j]? = some y → check y = .ok () := by
  rw [forM_eq_error_iff]
  constructor
  · rintro ⟨before, x, after, rfl, passed, failed⟩
    refine ⟨before.length, x, by simp, failed, fun j earlier y found => ?_⟩
    rw [List.getElem?_append_left earlier] at found
    exact passed y (List.mem_of_getElem? found)
  · rintro ⟨i, x, found, failed, passed⟩
    obtain ⟨inside, rfl⟩ := List.getElem?_eq_some_iff.1 found
    refine ⟨xs.take i, xs[i], xs.drop (i + 1), ?_, fun y member => ?_, failed⟩
    · rw [List.getElem_cons_drop, List.take_append_drop]
    · obtain ⟨j, at', rfl⟩ := List.mem_take_iff_getElem.1 member
      have earlier : j < i := by omega
      exact passed j earlier _ (List.getElem?_eq_getElem _)

/-! ## Computations with one result -/

/-- A computation succeeds exactly when `Sound` holds, and then with one result. -/
def Returns {ε α : Type} (made : Except ε α) (Sound : Prop) (a : α) : Prop :=
  ∀ a', made = .ok a' ↔ Sound ∧ a' = a

theorem Returns.bind {ε α β : Type} {made : Except ε α} {next : α → Except ε β}
    {Sound Sound' : Prop} {a : α} {b : β} (first : Returns made Sound a)
    (second : Returns (next a) Sound' b) : Returns (made >>= next) (Sound ∧ Sound') b := by
  intro b'
  cases answer : made with
  | error error =>
      have refused : ¬ Sound := fun sound => by
        rw [(first a).2 ⟨sound, rfl⟩] at answer
        cases answer
      exact ⟨nofun, fun both => absurd both.1.1 refused⟩
  | ok a' =>
      obtain ⟨sound, rfl⟩ := (first a').1 answer
      exact (second b').trans (by simp [sound])

theorem returns_pure {ε α : Type} (a : α) : Returns (.ok a : Except ε α) True a :=
  fun a' => by simp [eq_comm]

theorem Returns.congr {ε α : Type} {made : Except ε α} {Sound Sound' : Prop} {a : α}
    (returns : Returns made Sound a) (same : Sound ↔ Sound') : Returns made Sound' a :=
  fun a' => (returns a').trans (and_congr_left' same)

theorem returns_mapM {ε α : Type} {make : α → Except ε α} {Sound : α → Prop} {xs : List α}
    (each : ∀ x ∈ xs, Returns (make x) (Sound x) x) :
    Returns (xs.mapM make) (∀ x ∈ xs, Sound x) xs := by
  induction xs with
  | nil => exact (returns_pure []).congr (by simp)
  | cons x xs ih =>
      obtain ⟨here, below⟩ := List.forall_mem_cons.1 each
      rw [List.mapM_cons]
      refine (here.bind ((ih below).bind (returns_pure (x :: xs)))).congr ?_
      rw [and_true, List.forall_mem_cons]

namespace TypeExpr

/-! ## The rules of one node -/

/-- The rules that a node is to keep by itself. -/
def KeepsRules : TypeExpr → Prop
  | enum _ symbols => symbols ≠ [] ∧ symbols.Nodup
  | record _ fields => (fields.map (·.name)).Nodup
  | variant _ cases => cases ≠ [] ∧ (cases.map (·.name)).Nodup ∧
      ∀ c ∈ cases, (c.parameters.map (·.name)).Nodup
  | _ => True

/-- A node breaks a rule, and this is the error that says so. -/
inductive Breaks : TypeExpr → SchemaError → Prop
  | emptyEnum {n : Name} : Breaks (enum n []) (.emptyEnum n)
  | symbol {n : Name} {symbols : List String} {x : String} :
      FirstRepeat symbols x → Breaks (enum n symbols) (.duplicate .symbol x n)
  | field {n : Name} {fields : List (Field TypeExpr)} {x : String} :
      FirstRepeat (fields.map (·.name)) x → Breaks (record n fields) (.duplicate .field x n)
  | emptyVariant {n : Name} : Breaks (variant n []) (.emptyVariant n)
  | case {n : Name} {cases : List (Case TypeExpr)} {x : String} :
      FirstRepeat (cases.map (·.name)) x → Breaks (variant n cases) (.duplicate .case x n)
  /-- Of the cases, the first with two parameters of one name. -/
  | parameter {n : Name} {cases before after : List (Case TypeExpr)} {c : Case TypeExpr}
      {x : String} :
      (cases.map (·.name)).Nodup → cases = before ++ c :: after →
      (∀ b ∈ before, (b.parameters.map (·.name)).Nodup) →
      FirstRepeat (c.parameters.map (·.name)) x →
      Breaks (variant n cases) (.duplicate .field x n)

variable {e d : TypeExpr} {error : SchemaError}

theorem checkLocal_variant_eq_ok_iff {n : Name} {cases : List (Case TypeExpr)} :
    (variant n cases).checkLocal = .ok () ↔ (variant n cases).KeepsRules := by
  by_cases empty : cases = []
  · simp [checkLocal, KeepsRules, empty]
  · rw [checkLocal, if_neg empty, seq_eq_ok_iff, forM_eq_ok_iff]
    simp only [checkDistinct_eq_ok_iff, KeepsRules, ne_eq, empty, not_false_eq_true, true_and]

/-- The check of one node is the rules of the node. -/
theorem checkLocal_eq_ok_iff : e.checkLocal = .ok () ↔ e.KeepsRules := by
  cases e with
  | enum n symbols =>
      by_cases empty : symbols = [] <;>
        simp [checkLocal, KeepsRules, empty, checkDistinct_eq_ok_iff]
  | record n fields => exact checkDistinct_eq_ok_iff
  | variant n cases => exact checkLocal_variant_eq_ok_iff
  | primitive p | array item | map item | optional item | newtype n u | reference n =>
      simp [checkLocal, KeepsRules]

theorem checkLocal_variant_eq_error_iff {n : Name} {cases : List (Case TypeExpr)} :
    (variant n cases).checkLocal = .error error ↔ (variant n cases).Breaks error := by
  by_cases empty : cases = []
  · subst empty
    constructor
    · rintro ⟨⟩
      exact .emptyVariant
    · intro breaks
      cases breaks with
      | emptyVariant => rfl
      | case repeated => obtain ⟨before, after, same, -⟩ := repeated; simp at same
      | parameter _ split _ _ => simp at split
  · rw [checkLocal, if_neg empty, seq_eq_error_iff, forM_eq_error_iff]
    simp only [checkDistinct_eq_ok_iff, checkDistinct_eq_error_iff]
    constructor
    · rintro (⟨x, repeated, rfl⟩ | ⟨distinct, before, c, after, split, sound, x, repeated, rfl⟩)
      · exact .case repeated
      · exact .parameter distinct split sound repeated
    · intro breaks
      cases breaks with
      | emptyVariant => exact absurd rfl empty
      | case repeated => exact .inl ⟨_, repeated, rfl⟩
      | parameter distinct split sound repeated =>
          exact .inr ⟨distinct, _, _, _, split, sound, _, repeated, rfl⟩

theorem checkLocal_eq_error_iff : e.checkLocal = .error error ↔ e.Breaks error := by
  cases e with
  | enum n symbols =>
      by_cases empty : symbols = []
      · subst empty
        constructor
        · rintro ⟨⟩
          exact .emptyEnum
        · intro breaks
          cases breaks with
          | emptyEnum => rfl
          | symbol repeated => obtain ⟨before, after, same, -⟩ := repeated; simp at same
      · rw [checkLocal, if_neg empty, checkDistinct_eq_error_iff]
        constructor
        · rintro ⟨x, repeated, rfl⟩
          exact .symbol repeated
        · intro breaks
          cases breaks with
          | emptyEnum => exact absurd rfl empty
          | symbol repeated => exact ⟨_, repeated, rfl⟩
  | record n fields =>
      rw [checkLocal, checkDistinct_eq_error_iff]
      constructor
      · rintro ⟨x, repeated, rfl⟩
        exact .field repeated
      · intro breaks
        cases breaks with
        | field repeated => exact ⟨_, repeated, rfl⟩
  | variant n cases => exact checkLocal_variant_eq_error_iff
  | primitive p | array item | map item | optional item | newtype n u | reference n =>
      constructor
      · intro failed
        cases failed
      · intro breaks
        cases breaks

/-! ## Paths into a tree -/

/-- The node to which a path leads: each number in it is the place of a child. -/
def at? : TypeExpr → List Nat → Option TypeExpr
  | e, [] => some e
  | e, i :: path => e.children[i]?.bind fun c => c.at? path

theorem at?_cons {i : Nat} {path : List Nat} :
    e.at? (i :: path) = some d ↔ ∃ c, e.children[i]? = some c ∧ c.at? path = some d :=
  Option.bind_eq_some_iff

/-- There is a path to each node that stands in a tree, and to no other. -/
theorem standsIn_iff_at? : d.StandsIn e ↔ ∃ path, e.at? path = some d := by
  constructor
  · rw [← mem_nodes_iff]
    intro member
    induction e using inductionOnChildren with
    | step e ih =>
        rw [nodes_eq] at member
        rcases List.mem_cons.1 member with rfl | below
        · exact ⟨[], rfl⟩
        · obtain ⟨c, child, inside⟩ := List.mem_flatMap.1 below
          obtain ⟨path, leads⟩ := ih c child inside
          obtain ⟨i, place⟩ := List.getElem?_of_mem child
          exact ⟨i :: path, at?_cons.2 ⟨c, place, leads⟩⟩
  · rintro ⟨path, leads⟩
    induction path generalizing e with
    | nil =>
        cases leads
        exact .root
    | cons i path ih =>
        obtain ⟨c, place, leads⟩ := at?_cons.1 leads
        exact standsIn_of_child (List.mem_of_getElem? place) (ih leads)

/-! ## The check of a tree -/

/-- A tree passes when its root does and then its children do, in order. -/
theorem checkStructure_eq (e : TypeExpr) :
    e.checkStructure = e.checkLocal >>= fun _ => e.forEachChild checkStructure := by
  have inTurn : ∀ trees : List TypeExpr,
      (trees.flatMap nodes).forM checkLocal = trees.forM checkStructure := by
    intro trees
    induction trees with
    | nil => rfl
    | cons t trees ih =>
        calc ((t :: trees).flatMap nodes).forM checkLocal
          _ = (t.nodes ++ trees.flatMap nodes).forM checkLocal := by rw [List.flatMap_cons]
          _ = t.checkStructure >>= fun _ => (trees.flatMap nodes).forM checkLocal :=
              List.forM_append
          _ = (t :: trees).forM checkStructure := by rw [ih]; rfl
  rw [checkStructure, nodes_eq, forEachChild, ← inTurn]
  rfl

theorem checkStructure_eq_ok_iff_children :
    e.checkStructure = .ok () ↔
      e.checkLocal = .ok () ∧ ∀ c ∈ e.children, c.checkStructure = .ok () := by
  rw [checkStructure_eq, seq_eq_ok_iff, forEachChild, forM_eq_ok_iff]

/-- A tree passes exactly when every node in it keeps the rules. -/
theorem checkStructure_eq_ok_iff_keepsRules :
    e.checkStructure = .ok () ↔ ∀ d : TypeExpr, d.StandsIn e → d.KeepsRules := by
  simp only [checkStructure_eq_ok_iff, mem_nodes_iff, checkLocal_eq_ok_iff]

/-- Of the paths to nodes that break a rule, the first leads to one with this error. -/
def BreaksFirst (e : TypeExpr) (error : SchemaError) : Prop :=
  ∃ path d, e.at? path = some d ∧ d.Breaks error ∧
    ∀ path' < path, ∀ d', e.at? path' = some d' → d'.KeepsRules

theorem breaksFirst_root (breaks : e.Breaks error) : e.BreaksFirst error :=
  ⟨[], e, rfl, breaks, fun _ before => absurd before (List.not_lt_nil _)⟩

/-- The first break in a child is the first in the tree, when the root and the children before
it are sound. -/
theorem BreaksFirst.below {c : TypeExpr} {i : Nat} (broken : c.BreaksFirst error)
    (place : e.children[i]? = some c) (here : e.KeepsRules)
    (earlier : ∀ j < i, ∀ c', e.children[j]? = some c' → c'.checkStructure = .ok ()) :
    e.BreaksFirst error := by
  obtain ⟨path, d, leads, breaks, sound⟩ := broken
  refine ⟨i :: path, d, at?_cons.2 ⟨c, place, leads⟩, breaks, fun path' before d' leads' => ?_⟩
  cases path' with
  | nil =>
      cases leads'
      exact here
  | cons j path' =>
      obtain ⟨c', place', leads'⟩ := at?_cons.1 leads'
      rcases List.cons_lt_cons_iff.1 before with left | ⟨rfl, further⟩
      · have passed := checkStructure_eq_ok_iff_keepsRules.1 (earlier j left c' place')
        exact passed d' (standsIn_iff_at?.2 ⟨path', leads'⟩)
      · obtain rfl : c = c' := Option.some.inj (place.symm.trans place')
        exact sound path' further d' leads'

/-- The first break in a tree is at its root, or in the first child that has one. -/
theorem BreaksFirst.cases (broken : e.BreaksFirst error) :
    e.Breaks error ∨ e.KeepsRules ∧ ∃ (i : Nat) (c : TypeExpr), e.children[i]? = some c ∧
      c.BreaksFirst error ∧
      ∀ j < i, ∀ c', e.children[j]? = some c' → c'.checkStructure = .ok () := by
  obtain ⟨path, d, leads, breaks, sound⟩ := broken
  cases path with
  | nil =>
      cases leads
      exact .inl breaks
  | cons i path =>
      obtain ⟨c, place, leads⟩ := at?_cons.1 leads
      refine .inr ⟨sound [] (List.nil_lt_cons i path) e rfl, i, c, place,
        ⟨path, d, leads, breaks, fun path' before d' leads' => ?_⟩, fun j left c' place' => ?_⟩
      · exact sound (i :: path') (List.cons_lt_cons_iff.2 (.inr ⟨rfl, before⟩)) d'
          (at?_cons.2 ⟨c, place, leads'⟩)
      · refine checkStructure_eq_ok_iff_keepsRules.2 fun d' stands => ?_
        obtain ⟨path', leads'⟩ := standsIn_iff_at?.1 stands
        exact sound (j :: path') (List.cons_lt_cons_iff.2 (.inl left)) d'
          (at?_cons.2 ⟨c', place', leads'⟩)

/-- A tree is refused with the error of the first node, in pre-order, that breaks a rule. -/
theorem checkStructure_eq_error_iff : e.checkStructure = .error error ↔ e.BreaksFirst error := by
  induction e using inductionOnChildren with
  | step e ih =>
      rw [checkStructure_eq, seq_eq_error_iff, forEachChild, forM_eq_error_iff_getElem?,
        checkLocal_eq_ok_iff, checkLocal_eq_error_iff]
      constructor
      · rintro (breaks | ⟨here, i, c, place, failed, earlier⟩)
        · exact breaksFirst_root breaks
        · have broken := (ih c (List.mem_of_getElem? place)).1 failed
          exact broken.below place here earlier
      · intro broken
        rcases broken.cases with breaks | ⟨here, i, c, place, broken, earlier⟩
        · exact .inl breaks
        · have failed := (ih c (List.mem_of_getElem? place)).2 broken
          exact .inr ⟨here, i, c, place, failed, earlier⟩

/-! ## Trees made again -/

mutual

/-- Makes a tree again, each node by its constructor and from children that are made before
it. -/
def rebuild : TypeExpr → Except SchemaError TypeExpr
  | primitive p => return primitive p
  | array item => return array (← rebuild item)
  | map item => return map (← rebuild item)
  | optional item => return optional (← rebuild item)
  | enum name symbols => enumeration name symbols
  | record name fields => do makeRecord name (← rebuildFields fields)
  | variant name cases => do makeVariant name (← rebuildCases cases)
  | newtype name underlying => return newtype name (← rebuild underlying)
  | reference name => return reference name
termination_by structural e => e

def rebuildFields : List (Field TypeExpr) → Except SchemaError (List (Field TypeExpr))
  | [] => return []
  | ⟨name, type⟩ :: fields => return ⟨name, ← rebuild type⟩ :: (← rebuildFields fields)
termination_by structural fields => fields

def rebuildCases : List (Case TypeExpr) → Except SchemaError (List (Case TypeExpr))
  | [] => return []
  | ⟨name, parameters⟩ :: cases =>
      return ⟨name, ← rebuildFields parameters⟩ :: (← rebuildCases cases)
termination_by structural cases => cases

end

theorem returns_checked (e : TypeExpr) : Returns e.checked (e.checkLocal = .ok ()) e := by
  intro e'
  rw [checked]
  cases e.checkLocal with
  | ok => simp [Except.map, eq_comm]
  | error error => simp [Except.map]

/-- A tree that passes is made again as it was, and any other one is refused. -/
def ComesThrough (e : TypeExpr) : Prop :=
  Returns e.rebuild (e.checkStructure = .ok ()) e

theorem rebuildFields_eq (fields : List (Field TypeExpr)) :
    rebuildFields fields = fields.mapM fun f => return ⟨f.name, ← rebuild f.type⟩ := by
  induction fields with
  | nil => rfl
  | cons f fields ih => simp [rebuildFields, ih]

theorem rebuildCases_eq (cases : List (Case TypeExpr)) :
    rebuildCases cases = cases.mapM fun c => return ⟨c.name, ← rebuildFields c.parameters⟩ := by
  induction cases with
  | nil => rfl
  | cons c cases ih => simp [rebuildCases, ih]

theorem returns_rebuildFields {fields : List (Field TypeExpr)}
    (each : ∀ f ∈ fields, f.type.ComesThrough) :
    Returns (rebuildFields fields) (∀ f ∈ fields, f.type.checkStructure = .ok ()) fields := by
  rw [rebuildFields_eq]
  refine returns_mapM fun f member => ?_
  exact ((each f member).bind (returns_pure f)).congr (and_iff_left trivial)

theorem returns_rebuildCases {cases : List (Case TypeExpr)}
    (each : ∀ c ∈ cases, ∀ f ∈ c.parameters, f.type.ComesThrough) :
    Returns (rebuildCases cases)
      (∀ c ∈ cases, ∀ f ∈ c.parameters, f.type.checkStructure = .ok ()) cases := by
  rw [rebuildCases_eq]
  refine returns_mapM fun c member => ?_
  have parameters := returns_rebuildFields (each c member)
  exact (parameters.bind (returns_pure c)).congr (and_iff_left trivial)

theorem forall_mem_children_variant {P : TypeExpr → Prop} {n : Name}
    {cases : List (Case TypeExpr)} : (∀ d ∈ (variant n cases).children, P d) ↔
      ∀ c ∈ cases, ∀ f ∈ c.parameters, P f.type := by
  constructor
  · intro all c chosen f member
    exact all f.type (mem_children_of_parameter chosen member)
  · intro all d child
    obtain ⟨c, chosen, inParameters⟩ := List.mem_flatMap.1 child
    obtain ⟨f, member, rfl⟩ := List.mem_map.1 inParameters
    exact all c chosen f member

/-- A node is made from its parts, and these are made before it. -/
theorem comesThrough_of_parts {α : Type} {make : α → TypeExpr} {parts : α}
    {made : Except SchemaError α} {Sound : Prop} (inside : Returns made Sound parts)
    (rebuilt : (make parts).rebuild = made >>= fun parts' => (make parts').checked)
    (below : (∀ c ∈ (make parts).children, c.checkStructure = .ok ()) ↔ Sound) :
    (make parts).ComesThrough := by
  rw [ComesThrough, rebuilt]
  refine (inside.bind (returns_checked _)).congr ?_
  rw [checkStructure_eq_ok_iff_children, below, and_comm]

/-- A node without children is checked as it is. -/
theorem comesThrough_of_leaf (rebuilt : e.rebuild = e.checked) (leaf : e.children = []) :
    e.ComesThrough := by
  rw [ComesThrough, rebuilt]
  refine (returns_checked e).congr ?_
  rw [checkStructure_eq_ok_iff_children, leaf]
  simp

theorem comesThrough (e : TypeExpr) : e.ComesThrough := by
  induction e using inductionOnChildren with
  | step e ih =>
      cases e with
      | primitive p | reference n | enum n symbols => exact comesThrough_of_leaf rfl rfl
      | array item | map item | optional item | newtype n item =>
          have inside : item.ComesThrough := ih item List.mem_cons_self
          exact comesThrough_of_parts inside rfl List.forall_mem_singleton
      | record n fields =>
          have inside := returns_rebuildFields fun f member =>
            ih f.type (List.mem_map_of_mem member)
          exact comesThrough_of_parts inside rfl List.forall_mem_map
      | variant n cases =>
          have inside := returns_rebuildCases fun c chosen f member =>
            ih f.type (mem_children_of_parameter chosen member)
          exact comesThrough_of_parts inside rfl forall_mem_children_variant

/-- **A tree comes through the constructors exactly when its whole structure passes, and then as
it was.**  It passes when every node that stands in it keeps the rules of its shape, and is
otherwise refused with the error of the first node in pre-order that breaks one. -/
theorem rebuild_iff_checkStructure (e : TypeExpr) :
    (∀ e', e.rebuild = .ok e' ↔ e.checkStructure = .ok () ∧ e' = e) ∧
      (e.checkStructure = .ok () ↔ ∀ d : TypeExpr, d.StandsIn e → d.KeepsRules) ∧
      ∀ error, e.checkStructure = .error error ↔ e.BreaksFirst error :=
  ⟨comesThrough e, checkStructure_eq_ok_iff_keepsRules, fun _ => checkStructure_eq_error_iff⟩

end TypeExpr

namespace Example

def outer : Name := ⟨"t", "Outer", by decide⟩

def inner : Name := ⟨"t", "Inner", by decide⟩

/-- A field name that stands twice, above an enum without symbols. -/
def twoFaults : TypeExpr :=
  .record outer [⟨"x", .enum inner []⟩, ⟨"x", .primitive .bool⟩]

/- Both ways refuse it, but the constructors come to the enum first and the check to the
record. -/
example : twoFaults.checkStructure = .error (.duplicate .field "x" outer) := by rfl
example : twoFaults.rebuild = .error (.emptyEnum inner) := by rfl

end Example

end SchemaData
