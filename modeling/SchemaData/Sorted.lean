/-!
# SchemaData.Sorted -- tables as lists of pairs with ascending keys

A finite table is the list of its entries with the keys strictly ascending
(`Ascending`), so that equal tables are equal lists.  `insert` walks the list
once and replaces the value of a key that is there already; `ofList` inserts
entries in turn, so that of several entries with one key the last one stays.

`lookup_insert` is the law of a table.  `insert` keeps the keys ascending when the
order of the keys is a strict linear one (`insert_ascending`).
-/

namespace SchemaData.Sorted

set_option autoImplicit false

variable {κ ν : Type} [LT κ] [DecidableEq κ] [DecidableLT κ]

/-- The keys of the entries ascend strictly. -/
def Ascending (entries : List (κ × ν)) : Prop :=
  entries.Pairwise fun a b => a.1 < b.1

/-- The table with `v` at `k` and everything else as before. -/
def insert (k : κ) (v : ν) : List (κ × ν) → List (κ × ν)
  | [] => [(k, v)]
  | e :: rest =>
      if k < e.1 then (k, v) :: e :: rest
      else if k = e.1 then (k, v) :: rest
      else e :: insert k v rest

/-- The table of the entries, inserted in turn. -/
def ofList (entries : List (κ × ν)) : List (κ × ν) :=
  entries.foldl (fun table e => insert e.1 e.2 table) []

omit [LT κ] [DecidableLT κ] in
/-- The value at `k`, if the table has one. -/
def lookup (k : κ) : List (κ × ν) → Option ν
  | [] => none
  | e :: rest => if e.1 = k then some e.2 else lookup k rest

theorem lookup_insert_self (k : κ) (v : ν) (entries : List (κ × ν)) :
    lookup k (insert k v entries) = some v := by
  induction entries with
  | nil => simp [insert, lookup]
  | cons e rest ih =>
      simp only [insert]
      split
      · simp [lookup]
      · split
        · simp [lookup]
        · rename_i different
          simp [lookup, Ne.symm different, ih]

theorem lookup_insert_ne {k k' : κ} (v : ν) (entries : List (κ × ν)) (ne : k' ≠ k) :
    lookup k' (insert k v entries) = lookup k' entries := by
  induction entries with
  | nil => simp [insert, lookup, Ne.symm ne]
  | cons e rest ih =>
      simp only [insert]
      split
      · simp [lookup, Ne.symm ne]
      · split
        · rename_i same
          subst same
          simp [lookup, Ne.symm ne]
        · simp [lookup, ih]

/-- After an insertion the table has the new value at its key and is unchanged
elsewhere. -/
theorem lookup_insert (k k' : κ) (v : ν) (entries : List (κ × ν)) :
    lookup k' (insert k v entries) = if k' = k then some v else lookup k' entries := by
  by_cases same : k' = k
  · subst same; simp [lookup_insert_self]
  · simp [same, lookup_insert_ne v entries same]

omit [LT κ] [DecidableLT κ] in
theorem mem_of_lookup {k : κ} {v : ν} {entries : List (κ × ν)}
    (found : lookup k entries = some v) : (k, v) ∈ entries := by
  induction entries with
  | nil => simp [lookup] at found
  | cons e rest ih =>
      simp only [lookup] at found
      split at found
      · rename_i same
        rw [← same, ← Option.some.inj found]
        exact List.mem_cons_self
      · exact List.mem_cons_of_mem _ (ih found)

omit [LT κ] [DecidableLT κ] in
/-- A table has a value at exactly the keys that it lists. -/
theorem isSome_lookup_iff (k : κ) (entries : List (κ × ν)) :
    (lookup k entries).isSome = true ↔ k ∈ entries.map Prod.fst := by
  induction entries with
  | nil => simp [lookup]
  | cons e rest ih =>
      by_cases same : e.1 = k
      · simp [lookup, same]
      · simp [lookup, same, ih, Ne.symm same]

theorem mem_insert {k : κ} {v : ν} {entries : List (κ × ν)} {e : κ × ν}
    (member : e ∈ insert k v entries) : e = (k, v) ∨ e ∈ entries := by
  induction entries with
  | nil => simpa [insert] using member
  | cons head rest ih =>
      simp only [insert] at member
      split at member
      · simpa using member
      · split at member
        · rcases List.mem_cons.1 member with h | h
          · exact .inl h
          · exact .inr (List.mem_cons_of_mem _ h)
        · rcases List.mem_cons.1 member with h | h
          · exact .inr (h ▸ List.mem_cons_self)
          · exact (ih h).imp_right (List.mem_cons_of_mem _)

/-- An insertion keeps the keys ascending. -/
theorem insert_ascending (trans : ∀ {a b c : κ}, a < b → b < c → a < c)
    (trichotomy : ∀ a b : κ, a < b ∨ a = b ∨ b < a) (k : κ) (v : ν)
    {entries : List (κ × ν)} (ascending : Ascending entries) :
    Ascending (insert k v entries) := by
  induction entries with
  | nil => exact List.pairwise_singleton _ _
  | cons e rest ih =>
      obtain ⟨below, restAscending⟩ := List.pairwise_cons.1 ascending
      simp only [insert]
      split
      · rename_i less
        refine List.pairwise_cons.2 ⟨fun x member => ?_, ascending⟩
        rcases List.mem_cons.1 member with h | h
        · exact h ▸ less
        · exact trans less (below x h)
      · split
        · rename_i same
          exact List.pairwise_cons.2 ⟨fun x member => same ▸ below x member, restAscending⟩
        · rename_i notLess different
          have greater : e.1 < k := by
            rcases trichotomy k e.1 with h | h | h
            · exact absurd h notLess
            · exact absurd h different
            · exact h
          refine List.pairwise_cons.2 ⟨fun x member => ?_, ih restAscending⟩
          rcases mem_insert member with h | h
          · exact h ▸ greater
          · exact below x h

theorem foldl_insert_ascending (trans : ∀ {a b c : κ}, a < b → b < c → a < c)
    (trichotomy : ∀ a b : κ, a < b ∨ a = b ∨ b < a) (entries : List (κ × ν))
    {table : List (κ × ν)} (ascending : Ascending table) :
    Ascending (entries.foldl (fun t e => insert e.1 e.2 t) table) := by
  induction entries generalizing table with
  | nil => exact ascending
  | cons e rest ih => exact ih (insert_ascending trans trichotomy e.1 e.2 ascending)

theorem ofList_ascending (trans : ∀ {a b c : κ}, a < b → b < c → a < c)
    (trichotomy : ∀ a b : κ, a < b ∨ a = b ∨ b < a) (entries : List (κ × ν)) :
    Ascending (ofList entries) :=
  foldl_insert_ascending trans trichotomy entries List.Pairwise.nil

theorem mem_foldl_insert {entries table : List (κ × ν)} {e : κ × ν}
    (member : e ∈ entries.foldl (fun t e => insert e.1 e.2 t) table) :
    e ∈ table ∨ e ∈ entries := by
  induction entries generalizing table with
  | nil => exact .inl member
  | cons first rest ih =>
      rcases ih member with h | h
      · rcases mem_insert h with rfl | h
        · exact .inr List.mem_cons_self
        · exact .inl h
      · exact .inr (List.mem_cons_of_mem _ h)

theorem mem_ofList {entries : List (κ × ν)} {e : κ × ν} (member : e ∈ ofList entries) :
    e ∈ entries :=
  (mem_foldl_insert member).resolve_left nofun

omit [DecidableEq κ] [DecidableLT κ] in
theorem nodup_of_ascending (irrefl : ∀ a : κ, ¬ a < a) {entries : List (κ × ν)}
    (ascending : Ascending entries) : (entries.map Prod.fst).Nodup := by
  refine List.pairwise_map.2 (List.Pairwise.imp ?_ ascending)
  intro a b less same
  exact irrefl b.1 (same ▸ less)

omit [DecidableLT κ] in
/-- A table with ascending keys has the value of each of its entries. -/
theorem lookup_eq_some_iff (irrefl : ∀ a : κ, ¬ a < a) {entries : List (κ × ν)}
    (ascending : Ascending entries) {k : κ} {v : ν} :
    lookup k entries = some v ↔ (k, v) ∈ entries := by
  refine ⟨mem_of_lookup, fun member => ?_⟩
  induction entries with
  | nil => simp at member
  | cons e rest ih =>
      obtain ⟨below, restAscending⟩ := List.pairwise_cons.1 ascending
      rcases List.mem_cons.1 member with rfl | member
      · simp [lookup]
      · have different : e.1 ≠ k := by
          intro same
          have less := below (k, v) member
          rw [same] at less
          exact irrefl k less
        rw [lookup, if_neg different, ih restAscending member]

omit [LT κ] [DecidableEq κ] [DecidableLT κ] in
theorem nodup_of_keys {entries : List (κ × ν)} (distinct : (entries.map Prod.fst).Nodup) :
    entries.Nodup :=
  (List.pairwise_map.1 distinct).imp fun different same => different (congrArg Prod.fst same)

omit [DecidableLT κ] in
/-- Two tables with ascending keys are the same when they have the same value at every
key. -/
theorem eq_of_lookup (irrefl : ∀ a : κ, ¬ a < a) (trans : ∀ {a b c : κ}, a < b → b < c → a < c)
    {entries entries' : List (κ × ν)} (ascending : Ascending entries)
    (ascending' : Ascending entries') (same : ∀ k, lookup k entries = lookup k entries') :
    entries = entries' := by
  have distinct : ∀ {es : List (κ × ν)}, Ascending es → es.Nodup := fun ascends =>
    nodup_of_keys (nodup_of_ascending irrefl ascends)
  have members : ∀ e, e ∈ entries ↔ e ∈ entries' := by
    intro e
    rw [← lookup_eq_some_iff irrefl ascending, ← lookup_eq_some_iff irrefl ascending', same]
  have permuted : entries.Perm entries' :=
    (List.perm_ext_iff_of_nodup (distinct ascending) (distinct ascending')).2 members
  refine permuted.eq_of_pairwise ?_ ascending ascending'
  intro a b _ _ less greater
  exact absurd (trans less greater) (irrefl a.1)

theorem lookup_foldl_insert_iff {entries table : List (κ × ν)} {k : κ} {v : ν}
    (distinct : (entries.map Prod.fst).Nodup) :
    lookup k (entries.foldl (fun t e => insert e.1 e.2 t) table) = some v ↔
      (k, v) ∈ entries ∨ k ∉ entries.map Prod.fst ∧ lookup k table = some v := by
  induction entries generalizing table with
  | nil => simp
  | cons e rest ih =>
      obtain ⟨k', v'⟩ := e
      obtain ⟨fresh, distinct⟩ := List.nodup_cons.1 distinct
      rw [List.foldl_cons, ih distinct, lookup_insert]
      by_cases same : k = k'
      · subst same
        have absent : ∀ w, (k, w) ∉ rest := fun w member => fresh (List.mem_map.2 ⟨_, member, rfl⟩)
        simp [absent, eq_comm]
      · simp [same]

/-- Entries with distinct keys make a table of exactly these entries. -/
theorem perm_ofList (irrefl : ∀ a : κ, ¬ a < a) (trans : ∀ {a b c : κ}, a < b → b < c → a < c)
    (trichotomy : ∀ a b : κ, a < b ∨ a = b ∨ b < a) {entries : List (κ × ν)}
    (distinct : (entries.map Prod.fst).Nodup) : (ofList entries).Perm entries := by
  have ascending := ofList_ascending trans trichotomy entries
  have distinct' := nodup_of_keys (nodup_of_ascending irrefl ascending)
  refine (List.perm_ext_iff_of_nodup distinct' (nodup_of_keys distinct)).2 fun ⟨k, v⟩ => ?_
  rw [← lookup_eq_some_iff irrefl ascending, ofList, lookup_foldl_insert_iff distinct]
  simp [lookup]

theorem length_insert_of_fresh {k : κ} {entries : List (κ × ν)}
    (fresh : k ∉ entries.map Prod.fst) (v : ν) :
    (insert k v entries).length = entries.length + 1 := by
  induction entries with
  | nil => simp [insert]
  | cons e rest ih =>
      obtain ⟨different, further⟩ : k ≠ e.1 ∧ k ∉ rest.map Prod.fst := by simpa using fresh
      rw [insert]
      split
      · simp
      · simp [ih further]

theorem length_insert_le (k : κ) (v : ν) (entries : List (κ × ν)) :
    (insert k v entries).length ≤ entries.length + 1 := by
  induction entries with
  | nil => simp [insert]
  | cons e rest ih =>
      simp only [insert]
      split
      · simp
      · split
        · simp
        · simpa using ih

theorem length_ofList_le (entries : List (κ × ν)) : (ofList entries).length ≤ entries.length := by
  have grows : ∀ table : List (κ × ν),
      (entries.foldl (fun t e => insert e.1 e.2 t) table).length ≤
        table.length + entries.length := by
    induction entries with
    | nil => simp
    | cons e rest ih =>
        intro table
        have step := length_insert_le e.1 e.2 table
        have tail := ih (insert e.1 e.2 table)
        simp only [List.foldl_cons, List.length_cons]
        omega
  simpa [ofList] using grows []

theorem insert_eq_append (irrefl : ∀ a : κ, ¬ a < a)
    (trans : ∀ {a b c : κ}, a < b → b < c → a < c) {k : κ} (v : ν) {entries : List (κ × ν)}
    (below : ∀ e ∈ entries, e.1 < k) : insert k v entries = entries ++ [(k, v)] := by
  induction entries with
  | nil => rfl
  | cons e rest ih =>
      have less := below e List.mem_cons_self
      have notLess : ¬ k < e.1 := fun h => irrefl k (trans h less)
      have different : k ≠ e.1 := fun h => irrefl k (h ▸ less)
      rw [insert, if_neg notLess, if_neg different,
        ih fun x member => below x (List.mem_cons_of_mem _ member), List.cons_append]

/-- A list whose keys ascend is the table of its entries. -/
theorem ofList_eq_self (irrefl : ∀ a : κ, ¬ a < a)
    (trans : ∀ {a b c : κ}, a < b → b < c → a < c) {entries : List (κ × ν)}
    (ascending : Ascending entries) : ofList entries = entries := by
  have appended : ∀ table : List (κ × ν), Ascending (table ++ entries) →
      entries.foldl (fun t e => insert e.1 e.2 t) table = table ++ entries := by
    induction entries with
    | nil => simp
    | cons e rest ih =>
        intro table joined
        have below : ∀ x ∈ table, x.1 < e.1 := fun x member =>
          (List.pairwise_append.1 joined).2.2 x member e List.mem_cons_self
        rw [List.foldl_cons, insert_eq_append irrefl trans e.2 below,
          ih (List.pairwise_cons.1 ascending).2 _ (by simpa using joined)]
        simp
  simpa [ofList] using appended [] (by simpa using ascending)

end SchemaData.Sorted
