import Mathlib.Data.List.Basic
import SchemaData.Generator.Scalars

/-!
# SchemaData.Proofs.Words -- a word for every datum

What is made of words covers everything that it could be.

* `exists_pick?_eq`, `exists_pickExact?_eq`: every number below a range stands for some
  word that is not refused.  The word is the first one that stands for the number; the
  remainder of its product is below the range, and both bounds let that pass.
* `exists_words_of_bytes`: every run of bytes is cut from words of eight bytes.
* `exists_charOfIndex_eq`: every character has a number.
-/

namespace SchemaData

set_option autoImplicit false

namespace Uniform

variable {bits range i : Nat}

/-- The first word that stands for a number leaves a remainder below the range. -/
theorem exists_scaled_eq (inRange : i < range) (fits : range ≤ wordCount bits) :
    ∃ v < wordCount bits, scaled bits range v = i ∧ remainder bits range v < range := by
  generalize count : wordCount bits = n at fits
  have positive : 0 < range := by omega
  -- The quotient of `i * n` by the range, rounded up.
  obtain ⟨v, excess, small, product⟩ :
      ∃ v excess, excess < range ∧ v * range = i * n + excess := by
    have whole := Nat.div_add_mod (i * n + range - 1) range
    have rest := Nat.mod_lt (i * n + range - 1) positive
    rw [Nat.mul_comm] at whole
    exact ⟨(i * n + range - 1) / range, range - 1 - (i * n + range - 1) % range,
      by omega, by omega⟩
  have quotient : v * range / n = i := by
    rw [product, Nat.add_comm, Nat.add_mul_div_right _ _ (by omega),
      Nat.div_eq_of_lt (by omega), Nat.zero_add]
  have left : v * range % n = excess := by
    rw [product, Nat.add_comm, Nat.add_mul_mod_self_right, Nat.mod_eq_of_lt (by omega)]
  refine ⟨v, ?_, ?_, ?_⟩
  · have next : (i + 1) * n ≤ range * n := Nat.mul_le_mul_right n inRange
    rw [Nat.succ_mul] at next
    have below : v * range < n * range := by
      rw [product, Nat.mul_comm n range]
      omega
    exact Nat.lt_of_mul_lt_mul_right below
  · rw [scaled, count, quotient]
  · rw [remainder, count, left]
    exact small

/-- Every number below the range stands for some word that is not refused. -/
theorem exists_pick?_eq (inRange : i < range) (fits : range ≤ wordCount bits) :
    ∃ v < wordCount bits, pick? bits range v = some i := by
  obtain ⟨v, small, same, rest⟩ := exists_scaled_eq inRange fits
  refine ⟨v, small, ?_⟩
  have spread : range * 1 ≤ range * Nat.pow 2 (bits - 1 - Nat.log2 range) :=
    Nat.mul_le_mul_left range (Nat.two_pow_pos _)
  have accepted : remainder bits range v ≤ zone bits range := by
    unfold zone
    omega
  rw [pick?, if_pos accepted, same]

theorem exists_pickExact?_eq (inRange : i < range) (fits : range ≤ wordCount bits) :
    ∃ v < wordCount bits, pickExact? bits range v = some i := by
  obtain ⟨v, small, same, rest⟩ := exists_scaled_eq inRange fits
  refine ⟨v, small, ?_⟩
  have surplus : (wordCount bits - range) % range ≤ wordCount bits - range := Nat.mod_le _ _
  have accepted : remainder bits range v ≤ exactZone bits range := by
    unfold exactZone
    omega
  rw [pickExact?, if_pos accepted, same]

end Uniform

/-! ## Bytes -/

namespace RandomSource

/-- Eight bytes are those of some word. -/
theorem exists_bytes64_eq {bytes : List UInt8} (eight : bytes.length = 8) :
    ∃ w, bytes64 w = bytes := by
  match bytes, eight with
  | [b₀, b₁, b₂, b₃, b₄, b₅, b₆, b₇], _ =>
      obtain ⟨n, value⟩ : ∃ n, n = b₀.toNat + 2 ^ 8 * b₁.toNat + 2 ^ 16 * b₂.toNat +
          2 ^ 24 * b₃.toNat + 2 ^ 32 * b₄.toNat + 2 ^ 40 * b₅.toNat + 2 ^ 48 * b₆.toNat +
          2 ^ 56 * b₇.toNat := ⟨_, rfl⟩
      have bounds : b₀.toNat < 256 ∧ b₁.toNat < 256 ∧ b₂.toNat < 256 ∧ b₃.toNat < 256 ∧
          b₄.toNat < 256 ∧ b₅.toNat < 256 ∧ b₆.toNat < 256 ∧ b₇.toNat < 256 :=
        ⟨b₀.toNat_lt, b₁.toNat_lt, b₂.toNat_lt, b₃.toNat_lt, b₄.toNat_lt, b₅.toNat_lt,
          b₆.toNat_lt, b₇.toNat_lt⟩
      have small : n < 2 ^ 64 := by omega
      refine ⟨UInt64.ofNat n, ?_⟩
      simp only [bytes64, List.cons.injEq, and_true, ← UInt8.toNat_inj, UInt64.toNat_toUInt8,
        UInt64.toNat_shiftRight, UInt64.toNat_ofNat_of_lt' small, Nat.shiftRight_eq_div_pow,
        UInt64.reduceToNat, Nat.reduceMod]
      omega

/-- Whole words cover as many bytes as they have. -/
theorem exists_words_of_length {k : Nat} {bytes : List UInt8} (whole : bytes.length = k * 8) :
    ∃ words : List UInt64, words.length = k ∧ words.flatMap bytes64 = bytes := by
  induction k generalizing bytes with
  | zero =>
      rw [Nat.zero_mul, List.length_eq_zero_iff] at whole
      exact ⟨[], rfl, whole.symm⟩
  | succ k ih =>
      have eight : (bytes.take 8).length = 8 := by
        rw [List.length_take]
        omega
      have behind : (bytes.drop 8).length = k * 8 := by
        rw [List.length_drop]
        omega
      obtain ⟨w, first⟩ := exists_bytes64_eq eight
      obtain ⟨words, count, rest⟩ := ih behind
      refine ⟨w :: words, by rw [List.length_cons, count], ?_⟩
      rw [List.flatMap_cons, first, rest, List.take_append_drop]

/-- Every run of bytes is cut from words. -/
theorem exists_words_of_bytes (bytes : List UInt8) :
    ∃ words : List UInt64, words.length = (bytes.length + 8 - 1) / 8 ∧
      (words.flatMap bytes64).take bytes.length = bytes := by
  have whole : (bytes ++ List.replicate ((bytes.length + 8 - 1) / 8 * 8 - bytes.length) 0).length =
      (bytes.length + 8 - 1) / 8 * 8 := by
    rw [List.length_append, List.length_replicate]
    omega
  obtain ⟨words, count, same⟩ := exists_words_of_length whole
  exact ⟨words, count, by rw [same, List.take_left]⟩

end RandomSource

/-! ## Characters -/

namespace Generator

/-- Every character has a number. -/
theorem exists_charOfIndex_eq (c : Char) : ∃ i < 0x110000 - 0x800, charOfIndex i = c := by
  rcases c.valid with low | ⟨high, small⟩
  · refine ⟨c.toNat, ?_, ?_⟩
    · have : c.toNat < 0xD800 := low
      omega
    · have notSurrogate : 0x800 + c.toNat ≤ 0xDFFF := by
        have : c.toNat < 0xD800 := low
        omega
      rw [charOfIndex, if_pos notSurrogate, Char.ofNat_toNat]
  · have beyond : 0x800 + (c.toNat - 0x800) = c.toNat := by
      have : 0xDFFF < c.toNat := high
      omega
    refine ⟨c.toNat - 0x800, ?_, ?_⟩
    · have : c.toNat < 0x110000 := small
      omega
    · have notLow : ¬ 0x800 + (c.toNat - 0x800) ≤ 0xDFFF := by
        have : 0xDFFF < c.toNat := high
        omega
      rw [charOfIndex, if_neg notLow, beyond, Char.ofNat_toNat]

end Generator

end SchemaData
