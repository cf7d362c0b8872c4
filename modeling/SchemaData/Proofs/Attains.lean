import SchemaData.Proofs.Gives
import SchemaData.Proofs.Words
import SchemaData.Random.Scripted

/-!
# SchemaData.Proofs.Attains -- words that make a draw give a datum

`g.Attains size a` says that there are words from which a draw of `g` with the budget
`size` gives `a`, and that it takes these words and no more, whatever stands behind
them.  That is what lets draws be put in sequence: the words of two draws are those of
the first and then those of the second (`attains_bind`).

There is one rule for each combinator.  A word is found for every number of a range, so
every length within the budget and every item to choose is attained, provided that
words of 64 bits can count them.
-/

namespace SchemaData

set_option autoImplicit false

namespace Generator

variable {α β : Type} {size : Nat}

/-- From some words a draw gives `a`, and it takes all of them and no more. -/
def Attains (size : Nat) (g : Generator Scripted α) (a : α) : Prop :=
  ∃ words, ∀ rest state used,
    g.Gives size ⟨words ++ rest, state, used⟩ a ⟨rest, state, used + words.length⟩

theorem attains_pure (a : α) : (pure a : Generator Scripted α).Attains size a :=
  ⟨[], fun _ _ _ => gives_pure _ _⟩

theorem attains_bind {g : Generator Scripted α} {f : α → Generator Scripted β} {a : α} {b : β}
    (first : g.Attains size a) (next : (f a).Attains size b) : (g >>= f).Attains size b := by
  obtain ⟨front, first⟩ := first
  obtain ⟨back, next⟩ := next
  refine ⟨front ++ back, fun rest state used => ?_⟩
  rw [List.append_assoc, List.length_append, ← Nat.add_assoc]
  exact gives_bind (first _ _ _) (next _ _ _)

/-- A generator followed by a function of its value. -/
theorem attains_map {g : Generator Scripted α} {a : α} (f : α → β) (attains : g.Attains size a) :
    (g >>= fun a => pure (f a)).Attains size (f a) :=
  attains_bind attains (attains_pure _)

/-! ## Words -/

theorem attains_word32 (w : UInt32) : (word32 : Generator Scripted UInt32).Attains size w := by
  refine ⟨[w.toUInt64], fun rest state used => ⟨0, fun fuel _ => ?_⟩⟩
  have low : w.toUInt64.toUInt32 = w := UInt32.toUInt32_toUInt64 w
  exact congrArg (Outcome.value · _) low

theorem attains_word64 (w : UInt64) : (word64 : Generator Scripted UInt64).Attains size w :=
  ⟨[w], fun _ _ _ => ⟨0, fun _ _ => rfl⟩⟩

/-- A generator that is one loop attains what it accepts some word for. -/
theorem attains_of_accepted {ω : Type} (view : UInt64 → ω) {accept : ω → Option α}
    {g : Generator Scripted α} {a : α}
    (loop : ∀ ctx s, g ctx s =
      firstAccepted (fun s : Scripted => (view s.next.1, s.next.2)) accept ctx.fuel s)
    (accepted : ∃ w, accept (view w) = some a) : g.Attains size a := by
  obtain ⟨w, accepted⟩ := accepted
  exact ⟨[w], fun _ _ _ => gives_of_accepted loop accepted⟩

variable {range i : Nat}

/-- A word of 32 bits is the low half of one of 64. -/
theorem exists_low_half {v : Nat} (small : v < Uniform.wordCount 32) :
    ∃ w : UInt64, w.toUInt32.toNat = v :=
  ⟨(UInt32.ofNat v).toUInt64,
    by rw [UInt32.toUInt32_toUInt64, UInt32.toNat_ofNat_of_lt' small]⟩

theorem attains_below32 (inRange : i < range) (fits : range ≤ Uniform.wordCount 32) :
    (below32 range : Generator Scripted Nat).Attains size i := by
  obtain ⟨v, small, accepted⟩ := Uniform.exists_pick?_eq inRange fits
  obtain ⟨w, rfl⟩ := exists_low_half small
  exact attains_of_accepted UInt64.toUInt32 (fun _ _ => rfl) ⟨w, accepted⟩

theorem attains_below64 (inRange : i < range) (fits : range ≤ Uniform.wordCount 64) :
    (below64 range : Generator Scripted Nat).Attains size i := by
  obtain ⟨v, small, accepted⟩ := Uniform.exists_pick?_eq inRange fits
  have same : (UInt64.ofNat v).toNat = v := UInt64.toNat_ofNat_of_lt' small
  rw [← same] at accepted
  exact attains_of_accepted id (fun _ _ => rfl) ⟨UInt64.ofNat v, accepted⟩

theorem attains_belowExact (inRange : i < range) (fits : range ≤ Uniform.wordCount 32) :
    (belowExact range : Generator Scripted Nat).Attains size i := by
  obtain ⟨v, small, accepted⟩ := Uniform.exists_pickExact?_eq inRange fits
  obtain ⟨w, rfl⟩ := exists_low_half small
  exact attains_of_accepted UInt64.toUInt32 (fun _ _ => rfl) ⟨w, accepted⟩

theorem attains_belowIndex (inRange : i < range) (fits : range ≤ Uniform.wordCount 64) :
    (belowIndex range : Generator Scripted Nat).Attains size i := by
  unfold belowIndex
  split
  · rename_i short
    exact attains_below32 inRange (Nat.le_of_lt short)
  · exact attains_below64 inRange fits

/-- The words of a run are handed out in turn. -/
theorem bytesOfWords_scripted {write : UInt64 → List UInt8} (words rest : List UInt64)
    (state : UInt64) (used : Nat) :
    RandomSource.bytesOfWords Scripted.next write words.length ⟨words ++ rest, state, used⟩ =
      (words.flatMap write, ⟨rest, state, used + words.length⟩) := by
  induction words generalizing used with
  | nil => rfl
  | cons w words ih =>
      have taken : Scripted.next ⟨w :: words ++ rest, state, used⟩ =
          (w, ⟨words ++ rest, state, used + 1⟩) := rfl
      simp only [List.length_cons, RandomSource.bytesOfWords, taken, ih, List.flatMap_cons]
      rw [Nat.add_assoc, Nat.add_comm 1]

theorem attains_byteRun (bytes : List UInt8) :
    (byteRun bytes.length : Generator Scripted (List UInt8)).Attains size bytes := by
  obtain ⟨words, count, same⟩ := RandomSource.exists_words_of_bytes bytes
  refine ⟨words, fun rest state used => ⟨0, fun fuel _ => ?_⟩⟩
  have run : RandomSource.nextBytes bytes.length (⟨words ++ rest, state, used⟩ : Scripted) =
      (bytes, ⟨rest, state, used + words.length⟩) := by
    show RandomSource.bytesByWords 8 Scripted.next RandomSource.bytes64 _ _ = _
    rw [RandomSource.bytesByWords, ← count, bytesOfWords_scripted]
    exact congrArg (Prod.mk · _) same
  simp only [byteRun, run]

/-! ## Repetition and choice -/

theorem attains_vectorOf {g : Generator Scripted α} {as : List α}
    (each : ∀ a ∈ as, g.Attains size a) : (vectorOf as.length g).Attains size as := by
  induction as with
  | nil => exact attains_pure []
  | cons a as ih =>
      obtain ⟨first, rest⟩ := List.forall_mem_cons.1 each
      exact attains_bind first (attains_map _ (ih rest))

theorem attains_length {n : Nat} (le : n ≤ size) (machine : size < Uniform.wordCount 64) :
    (length : Generator Scripted Nat).Attains size n := by
  obtain ⟨words, gives⟩ : (below64 (size + 1) : Generator Scripted Nat).Attains size n :=
    attains_below64 (Nat.lt_succ_of_le le) machine
  exact ⟨words, gives⟩

theorem attains_listOf {g : Generator Scripted α} {as : List α} (le : as.length ≤ size)
    (machine : size < Uniform.wordCount 64) (each : ∀ a ∈ as, g.Attains size a) :
    (listOf g).Attains size as :=
  attains_bind (attains_length le machine) (attains_vectorOf each)

theorem attains_chooseFrom {what : String} {items : List α} {a : α} (member : a ∈ items)
    (fits : items.length ≤ Uniform.wordCount 64) :
    (chooseFrom what items : Generator Scripted α).Attains size a := by
  obtain ⟨i, inRange, same⟩ := List.mem_iff_getElem.1 member
  have chosen : (choose items : Generator Scripted (Option α)).Attains size (some a) := by
    obtain ⟨b, rest, rfl⟩ := List.exists_cons_of_ne_nil (List.ne_nil_of_mem member)
    have answer : (b :: rest)[i]? = some a := by rw [List.getElem?_eq_getElem inRange, same]
    rw [← answer]
    exact attains_map (fun j => (b :: rest)[j]?) (attains_belowIndex inRange fits)
  exact attains_bind chosen (attains_pure a)

end Generator

end SchemaData
