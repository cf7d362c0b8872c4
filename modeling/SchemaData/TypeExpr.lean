import SchemaData.Name

/-!
# SchemaData.TypeExpr -- the nodes of a schema

A `TypeExpr` is a tree of type nodes.  A reference is a leaf: it holds the name
of a definition, and only a module knows its target.  The types of record fields
and of case parameters are children of their node, in declared order and case by
case; `nodes` lists a tree in pre-order, each node before its children.

The type of a field is a parameter of `Field` and `Case`, because the two stand
inside the type of nodes.
-/

namespace SchemaData

set_option autoImplicit false

/-- A named slot of a record or of a variant's case. -/
structure Field (τ : Type) where
  name : String
  type : τ
deriving DecidableEq

/-- One alternative of a variant, with its parameters in declared order. -/
structure Case (τ : Type) where
  name : String
  parameters : List (Field τ)
deriving DecidableEq

inductive TypeExpr
  | primitive (p : Primitive)
  | array (item : TypeExpr)
  /-- A map from texts to values of the item's type. -/
  | map (item : TypeExpr)
  | optional (item : TypeExpr)
  | enum (name : Name) (symbols : List String)
  | record (name : Name) (fields : List (Field TypeExpr))
  | variant (name : Name) (cases : List (Case TypeExpr))
  /-- A second name for what the underlying node describes. -/
  | newtype (name : Name) (underlying : TypeExpr)
  /-- The definition of a name. -/
  | reference (name : Name)

namespace TypeExpr

instance : Inhabited TypeExpr := ⟨.primitive .bool⟩

def shape : TypeExpr → Shape
  | primitive p => .primitive p
  | array _ => .array
  | map _ => .map
  | optional _ => .optional
  | enum .. => .enum
  | record .. => .record
  | variant .. => .variant
  | newtype .. => .newtype
  | reference _ => .reference

/-- The name that a named node carries. -/
def name? : TypeExpr → Option Name
  | enum name _ | record name _ | variant name _ | newtype name _ | reference name => some name
  | _ => none

/-- The primitive node of a primitive shape. -/
def ofShape? : Shape → Option TypeExpr
  | .primitive p => some (.primitive p)
  | _ => none

/-- The children of a node, in declared order. -/
def children : TypeExpr → List TypeExpr
  | array item | map item | optional item => [item]
  | newtype _ underlying => [underlying]
  | record _ fields => fields.map (·.type)
  | variant _ cases => cases.flatMap fun c => c.parameters.map (·.type)
  | _ => []

/-- The types of the parameters of a case are children of the variant. -/
theorem mem_children_of_parameter {n : Name} {cases : List (Case TypeExpr)} {c : Case TypeExpr}
    {f : Field TypeExpr} (chosen : c ∈ cases) (member : f ∈ c.parameters) :
    f.type ∈ (variant n cases).children :=
  List.mem_flatMap.2 ⟨c, chosen, List.mem_map_of_mem member⟩

/-- A node that bears no payload of its own. -/
def isIndirect : TypeExpr → Bool
  | newtype .. | reference _ => true
  | _ => false

/-! ## All nodes of a tree -/

mutual

/-- The nodes of a tree, each before its children and these in declared order. -/
def nodes : TypeExpr → List TypeExpr
  | primitive p => [primitive p]
  | array item => array item :: nodes item
  | map item => map item :: nodes item
  | optional item => optional item :: nodes item
  | enum name symbols => [enum name symbols]
  | record name fields => record name fields :: nodesOfFields fields
  | variant name cases => variant name cases :: nodesOfCases cases
  | newtype name underlying => newtype name underlying :: nodes underlying
  | reference name => [reference name]
termination_by structural e => e

def nodesOfFields : List (Field TypeExpr) → List TypeExpr
  | [] => []
  | ⟨_, type⟩ :: fields => nodes type ++ nodesOfFields fields
termination_by structural fields => fields

def nodesOfCases : List (Case TypeExpr) → List TypeExpr
  | [] => []
  | ⟨_, parameters⟩ :: cases => nodesOfFields parameters ++ nodesOfCases cases
termination_by structural cases => cases

end

theorem nodesOfFields_eq (fields : List (Field TypeExpr)) :
    nodesOfFields fields = fields.flatMap fun f => nodes f.type := by
  induction fields with
  | nil => rfl
  | cons f fields ih => simp [nodesOfFields, ih]

theorem nodesOfCases_eq (cases : List (Case TypeExpr)) :
    nodesOfCases cases = cases.flatMap fun c => c.parameters.flatMap fun f => nodes f.type := by
  induction cases with
  | nil => rfl
  | cons c cases ih => simp [nodesOfCases, nodesOfFields_eq, ih]

/-- A tree is its root followed by the trees of the root's children. -/
theorem nodes_eq (e : TypeExpr) : nodes e = e :: e.children.flatMap nodes := by
  cases e <;>
    simp [nodes, children, nodesOfFields_eq, nodesOfCases_eq, List.flatMap_map,
      List.flatMap_assoc]

/-- The names of the references in a tree, in pre-order. -/
def references (e : TypeExpr) : List Name :=
  e.nodes.filterMap fun
    | reference name => some name
    | _ => none

/-! ## Equality -/

mutual

/-- Whether two trees are the same. -/
def same : TypeExpr → TypeExpr → Bool
  | primitive p, primitive q => p == q
  | array a, array b => same a b
  | map a, map b => same a b
  | optional a, optional b => same a b
  | enum n symbols, enum n' symbols' => n == n' && symbols == symbols'
  | record n fields, record n' fields' => n == n' && sameFields fields fields'
  | variant n cases, variant n' cases' => n == n' && sameCases cases cases'
  | newtype n a, newtype n' b => n == n' && same a b
  | reference n, reference n' => n == n'
  | _, _ => false
termination_by structural a => a

def sameFields : List (Field TypeExpr) → List (Field TypeExpr) → Bool
  | [], [] => true
  | ⟨x, a⟩ :: fields, g :: fields' => x == g.name && same a g.type && sameFields fields fields'
  | _, _ => false
termination_by structural fields => fields

def sameCases : List (Case TypeExpr) → List (Case TypeExpr) → Bool
  | [], [] => true
  | ⟨x, ps⟩ :: cases, d :: cases' =>
      x == d.name && sameFields ps d.parameters && sameCases cases cases'
  | _, _ => false
termination_by structural cases => cases

end

mutual

theorem same_iff : (a b : TypeExpr) → (same a b = true ↔ a = b)
  | primitive p, b => by cases b <;> simp [same]
  | array a, b => by cases b <;> simp [same, same_iff a]
  | map a, b => by cases b <;> simp [same, same_iff a]
  | optional a, b => by cases b <;> simp [same, same_iff a]
  | enum n symbols, b => by cases b <;> simp [same]
  | record n fields, b => by cases b <;> simp [same, sameFields_iff fields]
  | variant n cases, b => by cases b <;> simp [same, sameCases_iff cases]
  | newtype n a, b => by cases b <;> simp [same, same_iff a]
  | reference n, b => by cases b <;> simp [same]
termination_by structural a => a

theorem sameFields_iff : (a b : List (Field TypeExpr)) → (sameFields a b = true ↔ a = b)
  | [], b => by cases b <;> simp [sameFields]
  | ⟨x, a⟩ :: fields, b => by
      cases b with
      | nil => simp [sameFields]
      | cons g fields' =>
          obtain ⟨y, b⟩ := g
          simp [sameFields, same_iff a, sameFields_iff fields]
termination_by structural a => a

theorem sameCases_iff : (a b : List (Case TypeExpr)) → (sameCases a b = true ↔ a = b)
  | [], b => by cases b <;> simp [sameCases]
  | ⟨x, ps⟩ :: cases, b => by
      cases b with
      | nil => simp [sameCases]
      | cons d cases' =>
          obtain ⟨y, qs⟩ := d
          simp [sameCases, sameFields_iff ps, sameCases_iff cases]
termination_by structural a => a

end

instance : DecidableEq TypeExpr := fun a b =>
  decidable_of_iff (same a b = true) (same_iff a b)

end TypeExpr

end SchemaData
