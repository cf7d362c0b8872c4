import SchemaData.Proofs.OneNode
import SchemaData.Random.Scripted

/-!
# SchemaData.Proofs.Keyed -- each key of a drawn map has its own item

A draw of a map takes its keys first, drops those that came before, takes one item for each
that is left, and enters the pairs into a table.  No item is drawn for a dropped key, no pair
is lost in the table, and an item is found at the key for which it was drawn.

`g.Draws ctx s as s'` is a sequence of successful draws, each from the source that the one
before it left.  `vectorOf` succeeds with such a sequence of its length
(`vectorOf_eq_value_iff`), and fails as a draw does that follows a shorter one
(`vectorOf_eq_failed_iff`).  The keys that are kept are told from the drawn ones by their first
places (`FirstOccurrences`), and the table from keys and items by what it has at each key
(`Keyed`); neither leaves a choice (`firstOccurrences_iff`, `keyed_iff`).
-/

namespace SchemaData

set_option autoImplicit false

variable {σ α β : Type}

/-! ## Sequences of draws -/

theorem Outcome.map_eq_value_iff {o : Outcome σ α} {f : α → β} {b : β} {s : σ} :
    o.map f = .value b s ↔ ∃ a, o = .value a s ∧ b = f a := by
  cases o <;> simp [Outcome.map, eq_comm, and_comm]

theorem Outcome.map_eq_failed_iff {o : Outcome σ α} {f : α → β} {e : DrawError} {s : σ} :
    o.map f = .failed e s ↔ o = .failed e s := by
  cases o <;> simp [Outcome.map]

namespace Generator

variable {ctx : Context σ} {g : Generator σ α} {f : α → Generator σ β} {s s' : σ}
  {e : DrawError}

theorem bind_eq_value_iff {b : β} : (g >>= f) ctx s = .value b s' ↔
    ∃ a s₁, g ctx s = .value a s₁ ∧ f a ctx s₁ = .value b s' := by
  show (g ctx s).andThen (fun a s₁ => f a ctx s₁) = _ ↔ _
  cases g ctx s <;> simp [Outcome.andThen]

theorem bind_eq_failed_iff : (g >>= f) ctx s = .failed e s' ↔
    g ctx s = .failed e s' ∨ ∃ a s₁, g ctx s = .value a s₁ ∧ f a ctx s₁ = .failed e s' := by
  show (g ctx s).andThen (fun a s₁ => f a ctx s₁) = _ ↔ _
  cases g ctx s <;> simp [Outcome.andThen]

/-- Draws one after another, all of which succeed. -/
inductive Draws (g : Generator σ α) (ctx : Context σ) : σ → List α → σ → Prop
  | none {s : σ} : Draws g ctx s [] s
  | next {s s₁ s' : σ} {a : α} {as : List α} :
      g ctx s = .value a s₁ → Draws g ctx s₁ as s' → Draws g ctx s (a :: as) s'

/-- What a generator ensures, all the draws of a sequence satisfy. -/
theorem Draws.all {as : List α} {Q : α → Prop} {E : DrawError → Prop}
    (draws : g.Draws ctx s as s') (each : g.Ensures ctx Q E) : ∀ a ∈ as, Q a := by
  induction draws with
  | none => exact nofun
  | @next s s₁ s' a as first rest ih =>
      have holds := each s
      rw [first] at holds
      exact List.forall_mem_cons.2 ⟨holds, ih⟩

theorem vectorOf_eq_value_iff {n : Nat} {as : List α} :
    vectorOf n g ctx s = .value as s' ↔ g.Draws ctx s as s' ∧ as.length = n := by
  induction n generalizing s s' as with
  | zero =>
      constructor
      · rintro ⟨⟩
        exact ⟨.none, rfl⟩
      · rintro ⟨draws, none⟩
        obtain rfl := List.length_eq_zero_iff.1 none
        cases draws
        rfl
  | succ n ih =>
      simp only [vectorOf, bind_eq_value_iff, ih]
      constructor
      · rintro ⟨a, s₁, first, rest, s₂, ⟨draws, rfl⟩, ⟨⟩⟩
        exact ⟨.next first draws, rfl⟩
      · rintro ⟨draws, count⟩
        cases draws with
        | none => cases count
        | @next _ s₁ _ a rest first draws =>
            exact ⟨a, s₁, first, rest, s', ⟨draws, Nat.succ.inj count⟩, rfl⟩

theorem vectorOf_eq_failed_iff {n : Nat} :
    vectorOf n g ctx s = .failed e s' ↔
      ∃ as s₁, g.Draws ctx s as s₁ ∧ as.length < n ∧ g ctx s₁ = .failed e s' := by
  induction n generalizing s with
  | zero => exact ⟨nofun, fun ⟨_, _, _, few, _⟩ => nomatch few⟩
  | succ n ih =>
      simp only [vectorOf, bind_eq_failed_iff, ih]
      constructor
      · rintro (failed | ⟨a, s₁, first, ⟨as, s₂, draws, few, failed⟩ | ⟨as, s₂, drawn, ⟨⟩⟩⟩)
        · exact ⟨[], s, .none, Nat.succ_pos n, failed⟩
        · exact ⟨a :: as, s₂, .next first draws, Nat.succ_lt_succ few, failed⟩
      · rintro ⟨as, s₂, draws, few, failed⟩
        cases draws with
        | none => exact .inl failed
        | @next _ s₁ _ a as first draws =>
            exact .inr ⟨a, s₁, first, .inl ⟨as, s₂, draws, Nat.lt_of_succ_lt_succ few, failed⟩⟩

theorem ne_failed_of_ensures {Q : α → Prop} (ensures : g.Ensures ctx Q fun _ => False) :
    g ctx s ≠ .failed e s' := by
  intro failed
  have meets := ensures s
  rw [failed] at meets
  exact meets

end Generator

/-! ## First occurrences -/

/-- The elements of a list, each once, in the order of their first places. -/
structure FirstOccurrences (keys distinct : List String) : Prop where
  mem_iff : ∀ k, k ∈ distinct ↔ k ∈ keys
  ordered : distinct.Pairwise fun k l => keys.idxOf k < keys.idxOf l

theorem FirstOccurrences.nodup {keys distinct : List String}
    (firsts : FirstOccurrences keys distinct) : distinct.Nodup := by
  refine firsts.ordered.imp ?_
  rintro k l less rfl
  exact Nat.lt_irrefl _ less

theorem eraseDups_concat (keys : List String) (k : String) :
    (keys ++ [k]).eraseDups = if k ∈ keys then keys.eraseDups else keys.eraseDups ++ [k] := by
  rw [List.eraseDups_append]
  by_cases again : k ∈ keys
  · simp [List.removeAll, again]
  · simp [List.removeAll, again, List.eraseDups_cons]

/-- A key that came before is dropped, and any other one is last so far. -/
theorem firstOccurrences_eraseDups (keys : List String) :
    FirstOccurrences keys keys.eraseDups := by
  refine ⟨fun k => List.mem_eraseDups, ?_⟩
  induction keys using List.reverseRecOn with
  | nil => exact .nil
  | append_singleton keys k ih =>
      have earlier : (keys.eraseDups).Pairwise fun a b =>
          (keys ++ [k]).idxOf a < (keys ++ [k]).idxOf b := by
        refine ih.imp_of_mem fun inKeys inKeys' less => ?_
        rwa [List.idxOf_append_of_mem (List.mem_eraseDups.1 inKeys),
          List.idxOf_append_of_mem (List.mem_eraseDups.1 inKeys')]
      rw [eraseDups_concat]
      split
      · exact earlier
      · rename_i fresh
        refine List.pairwise_append.2 ⟨earlier, List.pairwise_singleton _ _, ?_⟩
        intro a inKeys b last
        obtain rfl := List.mem_singleton.1 last
        have place := List.idxOf_lt_length_of_mem (List.mem_eraseDups.1 inKeys)
        rw [List.idxOf_append_of_mem (List.mem_eraseDups.1 inKeys),
          List.idxOf_append_of_notMem fresh]
        omega

theorem firstOccurrences_iff {keys distinct : List String} :
    FirstOccurrences keys distinct ↔ distinct = keys.eraseDups := by
  constructor
  · intro firsts
    have whole := firstOccurrences_eraseDups keys
    have permuted : distinct.Perm keys.eraseDups :=
      (List.perm_ext_iff_of_nodup firsts.nodup whole.nodup).2 fun k => by
        rw [firsts.mem_iff, whole.mem_iff]
    refine permuted.eq_of_pairwise ?_ firsts.ordered whole.ordered
    intro a b _ _ less greater
    exact absurd less (Nat.lt_asymm greater)
  · rintro rfl
    exact firstOccurrences_eraseDups keys

/-! ## Tables of pairs -/

/-- The table has one entry for each key, and at each key the item in its place. -/
structure Keyed (keys : List String) (items : List Value) (entries : List (String × Value)) :
    Prop where
  arity : items.length = keys.length
  count : entries.length = keys.length
  mem_iff : ∀ k, k ∈ entries.map Prod.fst ↔ k ∈ keys
  bound : ∀ (i : Nat) (k : String), keys[i]? = some k → Sorted.lookup k entries = items[i]?
  ascending : Sorted.Ascending entries

section Keyed

variable {keys : List String} {items : List Value} {entries entries' : List (String × Value)}

theorem keyed_ofList (distinct : keys.Nodup) (arity : items.length = keys.length) :
    Keyed keys items (Sorted.ofList (keys.zip items)) := by
  have ascending :=
    Sorted.ofList_ascending String.lt_trans Std.lt_trichotomy (keys.zip items)
  have keysOf : (keys.zip items).map Prod.fst = keys := List.map_fst_zip arity.ge
  have permuted := Sorted.perm_ofList String.lt_irrefl String.lt_trans Std.lt_trichotomy
    (keysOf.symm ▸ distinct)
  refine ⟨arity, ?_, fun k => ?_, fun i k place => ?_, ascending⟩
  · rw [permuted.length_eq, List.length_zip, arity, Nat.min_self]
  · rw [(permuted.map Prod.fst).mem_iff, keysOf]
  · obtain ⟨inside, -⟩ := List.getElem?_eq_some_iff.1 place
    have item : items[i]? = some items[i] := List.getElem?_eq_getElem (by omega)
    rw [item, Sorted.lookup_eq_some_iff String.lt_irrefl ascending, permuted.mem_iff]
    exact List.mem_of_getElem? (List.getElem?_zip_eq_some.2 ⟨place, item⟩)

theorem Keyed.unique (keyed : Keyed keys items entries) (keyed' : Keyed keys items entries') :
    entries = entries' := by
  refine Sorted.eq_of_lookup String.lt_irrefl String.lt_trans keyed.ascending keyed'.ascending
    fun k => ?_
  by_cases member : k ∈ keys
  · obtain ⟨i, place⟩ := List.getElem?_of_mem member
    rw [keyed.bound i k place, keyed'.bound i k place]
  · have absent : ∀ {es : List (String × Value)}, Keyed keys items es →
        Sorted.lookup k es = none := by
      intro es keyed
      rw [← Option.not_isSome_iff_eq_none, Sorted.isSome_lookup_iff, keyed.mem_iff]
      exact member
    rw [absent keyed, absent keyed']

theorem keyed_iff (distinct : keys.Nodup) : Keyed keys items entries ↔
    items.length = keys.length ∧ entries = Sorted.ofList (keys.zip items) := by
  constructor
  · intro keyed
    exact ⟨keyed.arity, keyed.unique (keyed_ofList distinct keyed.arity)⟩
  · rintro ⟨arity, rfl⟩
    exact keyed_ofList distinct arity

end Keyed

/-! ## Draws of maps -/

variable [RandomSource σ]

namespace Generator

/-- The keys that a draw of a map takes, and those of them that it keeps. -/
structure DrawsKeys (ctx : Context σ) (s : σ) (keys distinct : List String) (s' : σ) : Prop where
  few : keys.length ≤ ctx.size
  short : ∀ k ∈ keys, k.length ≤ ctx.size
  drawn : ∃ s₀, length ctx s = .value keys.length s₀ ∧ string.Draws ctx s₀ keys s'
  firsts : FirstOccurrences keys distinct

variable {ctx : Context σ} {s s' : σ} {e : DrawError} {item : BoundType}

theorem drawsKeys_iff {keys distinct : List String} : DrawsKeys ctx s keys distinct s' ↔
    listOf string ctx s = .value keys s' ∧ distinct = keys.eraseDups := by
  have drawn : listOf string ctx s = .value keys s' ↔
      ∃ s₀, length ctx s = .value keys.length s₀ ∧ string.Draws ctx s₀ keys s' := by
    simp only [listOf, bind_eq_value_iff, vectorOf_eq_value_iff]
    constructor
    · rintro ⟨n, s₀, chosen, draws, rfl⟩
      exact ⟨s₀, chosen, draws⟩
    · rintro ⟨s₀, chosen, draws⟩
      exact ⟨_, s₀, chosen, draws, rfl⟩
  rw [drawn, ← firstOccurrences_iff]
  constructor
  · exact fun keysDrawn => ⟨keysDrawn.drawn, keysDrawn.firsts⟩
  · rintro ⟨⟨s₀, chosen, draws⟩, firsts⟩
    have few : (length ctx s).Meets (· ≤ ctx.size) fun _ => True := ensures_length s
    rw [chosen] at few
    have short := draws.all (ensures_string (E := fun _ => True))
    exact ⟨few, short, ⟨s₀, chosen, draws⟩, firsts⟩

theorem entries_eq_value_iff {es : List (String × Value)} :
    entries item ctx s = .value es s' ↔ ∃ keys distinct s₁ items,
      DrawsKeys ctx s keys distinct s₁ ∧ (ofType item).Draws ctx s₁ items s' ∧
        items.length = distinct.length ∧ es = distinct.zip items := by
  simp only [entries, bind_eq_value_iff, vectorOf_eq_value_iff, drawsKeys_iff]
  constructor
  · rintro ⟨keys, s₁, drawn, items, s₂, ⟨draws, count⟩, ⟨⟩⟩
    exact ⟨keys, keys.eraseDups, s₁, items, ⟨drawn, rfl⟩, draws, count, rfl⟩
  · rintro ⟨keys, _, s₁, items, ⟨drawn, rfl⟩, draws, count, rfl⟩
    exact ⟨keys, s₁, drawn, items, s', ⟨draws, count⟩, rfl⟩

theorem entries_eq_failed_iff : entries item ctx s = .failed e s' ↔
    ∃ keys distinct s₁ items s₂, DrawsKeys ctx s keys distinct s₁ ∧
      (ofType item).Draws ctx s₁ items s₂ ∧ items.length < distinct.length ∧
        ofType item ctx s₂ = .failed e s' := by
  -- Texts are drawn without fail, so that only an item can fail.
  have texts : listOf string ctx s ≠ .failed e s' :=
    ne_failed_of_ensures (ensures_listOf ensures_string)
  simp only [entries, bind_eq_failed_iff, vectorOf_eq_failed_iff, drawsKeys_iff, texts, false_or]
  constructor
  · rintro ⟨keys, s₁, drawn, ⟨items, s₂, draws, few, failed⟩ | ⟨items, s₂, drawn, ⟨⟩⟩⟩
    exact ⟨keys, keys.eraseDups, s₁, items, s₂, ⟨drawn, rfl⟩, draws, few, failed⟩
  · rintro ⟨keys, _, s₁, items, s₂, ⟨drawn, rfl⟩, draws, few, failed⟩
    exact ⟨keys, s₁, drawn, .inl ⟨items, s₂, draws, few, failed⟩⟩

end Generator

/-- A map carries no name, so that no override can stand in for it. -/
theorem drawValue_of_map (table : Option (Overrides σ)) (fuel hops size : Nat)
    (skip : Option Name) (home : Instance) (item : TypeExpr) (s : σ) :
    drawValue table (fuel + 1) hops skip ⟨home, .map item⟩ size s =
      (Generator.entries ⟨home, item⟩ (Context.start fuel size table) s).map fun es =>
        ⟨⟨home, .map item⟩, .ofEntries es⟩ := by
  have plain : overrideOf table skip ⟨home, .map item⟩ = none := by cases table <;> rfl
  rw [drawValue_direct plain rfl]
  show ((Generator.entries ⟨home, item⟩ _ s).andThen fun es s' =>
    .value (Payload.ofEntries es) s').map _ = _
  cases Generator.entries ⟨home, item⟩ (Context.start fuel size table) s <;> rfl

/-- **A drawn map has one item for each of its keys, drawn in the order of the keys.**  A draw
gives a map exactly when it takes keys, then an item for each distinct one in the order of
their first places, and the map holds each item at its key.  It fails exactly when one of these
items does, with the same error and with the source as that item left it. -/
theorem drawn_keyed (table : Option (Overrides σ)) (fuel hops size : Nat) (skip : Option Name)
    (home : Instance) (item : TypeExpr) (s : σ) :
    let t : BoundType := ⟨home, .map item⟩
    let ctx := Context.start fuel size table
    (∀ v s', drawValue table (fuel + 1) hops skip t size s = .value v s' ↔
      ∃ keys distinct s₁ items entries, Generator.DrawsKeys ctx s keys distinct s₁ ∧
        (Generator.ofType ⟨home, item⟩).Draws ctx s₁ items s' ∧
        Keyed distinct items entries ∧ v = ⟨t, .map entries⟩) ∧
    ∀ e s', drawValue table (fuel + 1) hops skip t size s = .failed e s' ↔
      ∃ keys distinct s₁ items s₂, Generator.DrawsKeys ctx s keys distinct s₁ ∧
        (Generator.ofType ⟨home, item⟩).Draws ctx s₁ items s₂ ∧ items.length < distinct.length ∧
        Generator.ofType ⟨home, item⟩ ctx s₂ = .failed e s' := by
  intro t ctx
  rw [drawValue_of_map]
  constructor
  · intro v s'
    rw [Outcome.map_eq_value_iff]
    simp only [Generator.entries_eq_value_iff]
    constructor
    · rintro ⟨_, ⟨keys, distinct, s₁, items, keysDrawn, draws, count, rfl⟩, rfl⟩
      exact ⟨keys, distinct, s₁, items, _, keysDrawn, draws,
        keyed_ofList keysDrawn.firsts.nodup count, rfl⟩
    · rintro ⟨keys, distinct, s₁, items, entries, keysDrawn, draws, keyed, rfl⟩
      obtain ⟨count, rfl⟩ := (keyed_iff keysDrawn.firsts.nodup).1 keyed
      exact ⟨_, ⟨keys, distinct, s₁, items, keysDrawn, draws, count, rfl⟩, rfl⟩
  · intro e s'
    rw [Outcome.map_eq_failed_iff, Generator.entries_eq_failed_iff]

/- Of two empty texts one is kept, and one item is drawn: four words with the length. -/
example : drawValue none 2 0 none ⟨.base, .map (.primitive .bool)⟩ 2
    (Scripted.start [0xC000000000000000, 0, 0, 0xFFFFFFFF] 0) =
      .value ⟨⟨.base, .map (.primitive .bool)⟩, .map [("", Value.ofScalar (.bool true))]⟩
        ⟨[], 0, 4⟩ := by
  rfl

end SchemaData
