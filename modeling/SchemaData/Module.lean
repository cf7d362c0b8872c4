import SchemaData.NameMap
import SchemaData.Reachable
import SchemaData.TypeExpr.Structure

/-!
# SchemaData.Module -- definitions by name

A `Module` is the flat table of definitions in which references find their
targets.  A schema is recursive when a definition refers to itself, directly or
through others; the table itself holds no cycle.

A module is well formed when every definition passes `TypeExpr.checkStructure`
and every reference in a definition names a definition (`checkWellFormed`).
`recursiveNames` lists the names that can reach themselves.  A name in the table
need not be the name that its node carries.
-/

namespace SchemaData

set_option autoImplicit false

structure Module where
  definitions : NameMap TypeExpr
deriving DecidableEq

namespace Module

/-- The module without definitions. -/
def empty : Module := ⟨∅⟩

def get? (m : Module) (n : Name) : Option TypeExpr :=
  m.definitions.get? n

def contains (m : Module) (n : Name) : Bool :=
  m.definitions.contains n

/-- The defined names, ascending. -/
def names (m : Module) : List Name :=
  m.definitions.names

/-- The number of definitions. -/
def size (m : Module) : Nat :=
  m.definitions.size

def isEmpty (m : Module) : Bool :=
  m.definitions.isEmpty

/-- The definition of a name, or the refusal of a name that has none. -/
def lookup (m : Module) (n : Name) : Except SchemaError TypeExpr :=
  match m.get? n with
  | some e => .ok e
  | none => .error (.unresolvedName n)

theorem contains_iff (m : Module) (n : Name) :
    m.contains n = true ↔ ∃ e, m.get? n = some e :=
  Option.isSome_iff_exists

theorem contains_iff_mem_names (m : Module) (n : Name) :
    m.contains n = true ↔ n ∈ m.names :=
  m.definitions.contains_iff_mem_names n

/-! ## References -/

/-- The names that a tree refers to, ascending and each once. -/
def referredNames (e : TypeExpr) : List Name :=
  (NameMap.ofList (e.references.map fun n => (n, ()))).names

theorem mem_referredNames {e : TypeExpr} {n : Name} :
    n ∈ referredNames e ↔ n ∈ e.references := by
  rw [referredNames, ← NameMap.contains_iff_mem_names, NameMap.contains_ofList_iff]
  simp

/-- Refuses a tree that refers to a name without a definition, and reports the
least such name. -/
def checkClosed (m : Module) (e : TypeExpr) : Except SchemaError Unit :=
  match (referredNames e).find? fun n => !m.contains n with
  | some n => .error (.unresolvedName n)
  | none => .ok ()

theorem checkClosed_eq_ok_iff (m : Module) (e : TypeExpr) :
    m.checkClosed e = .ok () ↔ ∀ n ∈ e.references, m.contains n = true := by
  have first : (referredNames e).find? (fun n => !m.contains n) = none ↔
      ∀ n ∈ e.references, m.contains n = true := by
    simp [mem_referredNames]
  rw [← first, checkClosed]
  cases (referredNames e).find? fun n => !m.contains n <;> simp

/-- Judges the structure of all definitions, and then their references, both in
the order of the names. -/
def checkWellFormed (m : Module) : Except SchemaError Unit := do
  m.definitions.entries.forM fun d => d.2.checkStructure
  m.definitions.entries.forM fun d => m.checkClosed d.2

/-- A module is well formed exactly when each of its definitions is. -/
theorem checkWellFormed_eq_ok_iff (m : Module) :
    m.checkWellFormed = .ok () ↔ ∀ d ∈ m.definitions.entries,
      d.2.checkStructure = .ok () ∧ m.checkClosed d.2 = .ok () := by
  have both : m.checkWellFormed = .ok () ↔
      (∀ d ∈ m.definitions.entries, d.2.checkStructure = .ok ()) ∧
        ∀ d ∈ m.definitions.entries, m.checkClosed d.2 = .ok () := by
    rw [← forM_eq_ok_iff, ← forM_eq_ok_iff]
    exact seq_eq_ok_iff
  rw [both]
  exact ⟨fun ⟨structures, closed⟩ d member => ⟨structures d member, closed d member⟩,
    fun each => ⟨fun d member => (each d member).1, fun d member => (each d member).2⟩⟩

/-- The defined names to which the definition of `n` refers. -/
def successors (m : Module) (n : Name) : List Name :=
  match m.get? n with
  | some e => e.references.filter m.contains
  | none => []

/-- The names whose definitions lead back to themselves by one reference or more,
ascending.  References to undefined names lead nowhere. -/
def recursiveNames (m : Module) : List Name :=
  m.names.filter fun n => n ∈ reachable m.successors m.names (m.successors n)

end Module

end SchemaData
