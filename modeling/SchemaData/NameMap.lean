import SchemaData.Name
import SchemaData.Sorted

/-!
# SchemaData.NameMap -- tables keyed by qualified names

A `NameMap` holds at most one value per name and lists its names in ascending
order.  The definitions of a module and the overrides of a draw are such tables.
Two tables are equal exactly when they have the same value at every name, because
the order of the entries is part of the type.
-/

namespace SchemaData

set_option autoImplicit false

/-- A table from names to values, its entries in ascending order of their names. -/
structure NameMap (ν : Type) where
  entries : List (Name × ν)
  ascending : Sorted.Ascending entries

namespace NameMap

variable {ν : Type}

def empty : NameMap ν := ⟨[], List.Pairwise.nil⟩

instance : EmptyCollection (NameMap ν) := ⟨empty⟩

/-- The table with `v` at `n` and everything else as before. -/
def insert (m : NameMap ν) (n : Name) (v : ν) : NameMap ν :=
  ⟨Sorted.insert n v m.entries,
    Sorted.insert_ascending Name.lt_trans Name.lt_trichotomy n v m.ascending⟩

def get? (m : NameMap ν) (n : Name) : Option ν :=
  Sorted.lookup n m.entries

def contains (m : NameMap ν) (n : Name) : Bool :=
  (m.get? n).isSome

def size (m : NameMap ν) : Nat :=
  m.entries.length

def isEmpty (m : NameMap ν) : Bool :=
  m.entries.isEmpty

/-- The names of the table, ascending. -/
def names (m : NameMap ν) : List Name :=
  m.entries.map Prod.fst

/-- The table of the entries, inserted in turn. -/
def ofList (entries : List (Name × ν)) : NameMap ν :=
  entries.foldl (fun m e => m.insert e.1 e.2) ∅

instance [DecidableEq ν] : DecidableEq (NameMap ν) := fun a b =>
  if h : a.entries = b.entries then
    .isTrue (by cases a; cases b; simp_all)
  else .isFalse fun e => h (e ▸ rfl)

theorem get?_insert (m : NameMap ν) (n n' : Name) (v : ν) :
    (m.insert n v).get? n' = if n' = n then some v else m.get? n' :=
  Sorted.lookup_insert n n' v m.entries

theorem get?_empty (n : Name) : (∅ : NameMap ν).get? n = none := rfl

theorem mem_entries_of_get? {m : NameMap ν} {n : Name} {v : ν} (found : m.get? n = some v) :
    (n, v) ∈ m.entries :=
  Sorted.mem_of_lookup found

theorem get?_eq_some_iff {m : NameMap ν} {n : Name} {v : ν} :
    m.get? n = some v ↔ (n, v) ∈ m.entries :=
  Sorted.lookup_eq_some_iff Name.lt_irrefl m.ascending

/-- Tables with the same value at every name are the same. -/
theorem ext_get? {m m' : NameMap ν} (same : ∀ n, m.get? n = m'.get? n) : m = m' := by
  have entries : m.entries = m'.entries :=
    Sorted.eq_of_lookup Name.lt_irrefl Name.lt_trans m.ascending m'.ascending same
  cases m
  cases m'
  simp_all

theorem contains_iff_mem_names (m : NameMap ν) (n : Name) :
    m.contains n = true ↔ n ∈ m.names :=
  Sorted.isSome_lookup_iff n m.entries

/-- The table of a list has a value at exactly the names that the list mentions. -/
theorem contains_ofList_iff (entries : List (Name × ν)) (n : Name) :
    (ofList entries).contains n = true ↔ n ∈ entries.map Prod.fst := by
  have grows : ∀ m : NameMap ν,
      (entries.foldl (fun m e => m.insert e.1 e.2) m).contains n = true ↔
        m.contains n = true ∨ n ∈ entries.map Prod.fst := by
    induction entries with
    | nil => simp
    | cons e rest ih =>
        intro m
        rw [List.foldl_cons, ih, contains, get?_insert]
        by_cases same : n = e.1 <;> simp [same, contains]
  rw [ofList, grows]
  simp [contains, get?_empty]

theorem entries_ofList (entries : List (Name × ν)) :
    (ofList entries).entries = Sorted.ofList entries := by
  have grows : ∀ m : NameMap ν, (entries.foldl (fun m e => m.insert e.1 e.2) m).entries =
      entries.foldl (fun t e => Sorted.insert e.1 e.2 t) m.entries := by
    induction entries with
    | nil => exact fun m => rfl
    | cons e rest ih => exact fun m => ih (m.insert e.1 e.2)
  exact grows ∅

/-- A table is made of its own entries, in whatever order they come. -/
theorem ofList_of_perm {m : NameMap ν} {entries : List (Name × ν)}
    (perm : entries.Perm m.entries) : ofList entries = m := by
  have distinct : (entries.map Prod.fst).Nodup :=
    (perm.map Prod.fst).nodup_iff.2 (Sorted.nodup_of_ascending Name.lt_irrefl m.ascending)
  have kept : (ofList entries).entries.Perm m.entries := by
    rw [entries_ofList]
    exact (Sorted.perm_ofList Name.lt_irrefl Name.lt_trans Name.lt_trichotomy distinct).trans perm
  refine ext_get? fun n => Option.ext fun v => ?_
  rw [get?_eq_some_iff, get?_eq_some_iff, kept.mem_iff]

/-- A new name makes a table larger by one. -/
theorem size_insert {m : NameMap ν} {n : Name} (fresh : m.contains n = false) (v : ν) :
    (m.insert n v).size = m.size + 1 := by
  refine Sorted.length_insert_of_fresh (fun member => ?_) v
  rw [(m.contains_iff_mem_names n).2 member] at fresh
  cases fresh

theorem length_names (m : NameMap ν) : m.names.length = m.size :=
  List.length_map _

end NameMap

end SchemaData
