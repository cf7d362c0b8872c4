import Mathlib.Logic.Relation
import SchemaData.Module

/-!
# SchemaData.Proofs.Reach -- the nodes that a node leads to

`m.Leads e e'` is one step down a schema: from a node to a child, or from a reference
to its definition in `m`.  `m.Reaches e e'` is any number of such steps.  What a check,
or a draw, of `e` looks at are nodes that `e` reaches.

`d.StandsIn e` says the same of one tree, without references: it has a rule for each place
in which a node holds another, and `TypeExpr.nodes` lists exactly these nodes.
-/

namespace SchemaData

set_option autoImplicit false

namespace TypeExpr

theorem sizeOf_lt_of_mem_children {e c : TypeExpr} (inside : c ∈ e.children) :
    sizeOf c < sizeOf e := by
  have ofField : ∀ {f : Field TypeExpr} {fields : List (Field TypeExpr)}, f ∈ fields →
      sizeOf f.type < sizeOf fields := by
    intro f fields member
    have := List.sizeOf_lt_of_mem member
    cases f
    simp only [Field.mk.sizeOf_spec] at this ⊢
    omega
  cases e with
  | primitive p | enum n symbols | reference n => cases inside
  | array item | map item | optional item | newtype n item =>
      obtain rfl := List.mem_singleton.1 inside
      simp only [array.sizeOf_spec, map.sizeOf_spec, optional.sizeOf_spec, newtype.sizeOf_spec]
      omega
  | record n fields =>
      obtain ⟨f, member, rfl⟩ := List.mem_map.1 inside
      have := ofField member
      simp only [record.sizeOf_spec]
      omega
  | variant n cases =>
      obtain ⟨c, chosen, inParameters⟩ := List.mem_flatMap.1 inside
      obtain ⟨f, member, rfl⟩ := List.mem_map.1 inParameters
      have := ofField member
      have := List.sizeOf_lt_of_mem chosen
      cases c
      simp only [Case.mk.sizeOf_spec, variant.sizeOf_spec] at *
      omega

/-- Induction from the children of a node to the node. -/
theorem inductionOnChildren {motive : TypeExpr → Prop}
    (step : ∀ e, (∀ c ∈ e.children, motive c) → motive e) (e : TypeExpr) : motive e :=
  step e fun c _inside => inductionOnChildren step c
termination_by sizeOf e
decreasing_by exact sizeOf_lt_of_mem_children _inside

/-! ## Nodes of a tree -/

/-- A node stands in a tree, at its root or below it. -/
inductive StandsIn (d : TypeExpr) : TypeExpr → Prop
  | root : StandsIn d d
  | array {item : TypeExpr} : StandsIn d item → StandsIn d (.array item)
  | map {item : TypeExpr} : StandsIn d item → StandsIn d (.map item)
  | optional {item : TypeExpr} : StandsIn d item → StandsIn d (.optional item)
  | newtype {n : Name} {u : TypeExpr} : StandsIn d u → StandsIn d (.newtype n u)
  | field {n : Name} {fields : List (Field TypeExpr)} {f : Field TypeExpr} :
      f ∈ fields → StandsIn d f.type → StandsIn d (.record n fields)
  | parameter {n : Name} {cases : List (Case TypeExpr)} {c : Case TypeExpr}
      {f : Field TypeExpr} :
      c ∈ cases → f ∈ c.parameters → StandsIn d f.type → StandsIn d (.variant n cases)

theorem standsIn_of_child {d c e : TypeExpr} (child : c ∈ e.children) (stands : d.StandsIn c) :
    d.StandsIn e := by
  cases e with
  | primitive p | enum n symbols | reference n => simp [children] at child
  | array item | map item | optional item | newtype n item =>
      obtain rfl : c = item := by simpa [children] using child
      constructor
      exact stands
  | record n fields =>
      obtain ⟨f, member, rfl⟩ := List.mem_map.1 child
      exact .field member stands
  | variant n cases =>
      obtain ⟨c', chosen, inParameters⟩ := List.mem_flatMap.1 child
      obtain ⟨f, member, rfl⟩ := List.mem_map.1 inParameters
      exact .parameter chosen member stands

theorem mem_nodes_below {d c e : TypeExpr} (child : c ∈ e.children) (member : d ∈ c.nodes) :
    d ∈ e.nodes := by
  rw [nodes_eq]
  exact List.mem_cons_of_mem _ (List.mem_flatMap.2 ⟨c, child, member⟩)

/-- The list of the nodes of a tree misses none of them. -/
theorem mem_nodes_iff {d e : TypeExpr} : d ∈ e.nodes ↔ d.StandsIn e := by
  constructor
  · intro member
    induction e using inductionOnChildren with
    | step e ih =>
        rw [nodes_eq] at member
        rcases List.mem_cons.1 member with rfl | below
        · exact .root
        · obtain ⟨c, child, inside⟩ := List.mem_flatMap.1 below
          exact standsIn_of_child child (ih c child inside)
  · intro stands
    induction stands with
    | root =>
        rw [nodes_eq]
        exact List.mem_cons_self
    | array _ ih | map _ ih | optional _ ih | newtype _ ih =>
        exact mem_nodes_below List.mem_cons_self ih
    | field member _ ih => exact mem_nodes_below (List.mem_map_of_mem member) ih
    | parameter chosen member _ ih =>
        exact mem_nodes_below (mem_children_of_parameter chosen member) ih

theorem StandsIn.trans {d c e : TypeExpr} (inner : d.StandsIn c) (outer : c.StandsIn e) :
    d.StandsIn e := by
  induction outer with
  | root => exact inner
  | array _ ih => exact .array ih
  | map _ ih => exact .map ih
  | optional _ ih => exact .optional ih
  | newtype _ ih => exact .newtype ih
  | field member _ ih => exact .field member ih
  | parameter chosen member _ ih => exact .parameter chosen member ih

/-- What stands in a tree of sound structure is sound itself. -/
theorem checkStructure_of_standsIn {d e : TypeExpr} (sound : e.checkStructure = .ok ())
    (stands : d.StandsIn e) : d.checkStructure = .ok () := by
  rw [checkStructure_eq_ok_iff] at sound ⊢
  intro c member
  exact sound c (mem_nodes_iff.2 ((mem_nodes_iff.1 member).trans stands))

end TypeExpr

namespace Module

/-- One step down from a node. -/
inductive Leads (m : Module) : TypeExpr → TypeExpr → Prop
  | child {e c : TypeExpr} : c ∈ e.children → Leads m e c
  | definition {n : Name} {target : TypeExpr} :
      m.get? n = some target → Leads m (.reference n) target

/-- Any number of steps down from a node. -/
def Reaches (m : Module) : TypeExpr → TypeExpr → Prop :=
  Relation.ReflTransGen m.Leads

/-- `P` holds of every node that a node reaches. -/
def Throughout (m : Module) (P : TypeExpr → Prop) (e : TypeExpr) : Prop :=
  ∀ e', m.Reaches e e' → P e'

variable {m : Module} {P : TypeExpr → Prop} {e e' : TypeExpr}

theorem Throughout.here (all : m.Throughout P e) : P e :=
  all e .refl

theorem Throughout.next (all : m.Throughout P e) (leads : m.Leads e e') : m.Throughout P e' :=
  fun e'' reaches => all e'' (.head leads reaches)

theorem Throughout.later (all : m.Throughout P e) (reaches : m.Reaches e e') :
    m.Throughout P e' :=
  fun e'' further => all e'' (reaches.trans further)

/-- What a step down preserves holds throughout when it holds at the start. -/
theorem throughout_of_preserved (here : P e)
    (preserved : ∀ e e', m.Leads e e' → P e → P e') : m.Throughout P e := by
  intro e' reaches
  induction reaches with
  | refl => exact here
  | tail _ leads ih => exact preserved _ _ leads ih

/-- A property of all nodes of a tree and of all nodes of the definitions holds of
everything that the tree reaches. -/
theorem throughout_of_nodes (tree : ∀ e' ∈ e.nodes, P e')
    (definitions : ∀ d ∈ m.definitions.entries, ∀ e' ∈ d.2.nodes, P e') : m.Throughout P e := by
  have below : m.Throughout (fun e' => ∀ e'' ∈ e'.nodes, P e'') e := by
    refine throughout_of_preserved tree ?_
    rintro e' c (inside | found) holds
    · intro e'' member
      exact holds e'' (TypeExpr.mem_nodes_below inside member)
    · exact definitions _ (NameMap.mem_entries_of_get? found)
  intro e' reaches
  exact below e' reaches e' (TypeExpr.mem_nodes_iff.2 .root)

end Module

end SchemaData
