/-!
# SchemaData.Random.Uniform -- numbers of a range from words

A word `v` of `bits` bits stands for the number `v * range / 2 ^ bits` below
`range`.  To give every number equally many words, a word is refused when the
remainder of that product is too large, and another is taken.  `pick?` refuses
above a bound that is cheap to compute; `pickExact?` refuses as few words as
possible, so that every number keeps exactly `2 ^ bits / range` of them.

Floats come from the upper bits of a word as a multiple of a power of two below
one, stretched over an interval that is symmetric about zero.
-/

namespace SchemaData.Uniform

set_option autoImplicit false

/-- The number of words of so many bits. -/
def wordCount (bits : Nat) : Nat := Nat.pow 2 bits

/-- The number for which a word stands. -/
def scaled (bits range v : Nat) : Nat := v * range / wordCount bits

/-- What is left of the product. -/
def remainder (bits range v : Nat) : Nat := v * range % wordCount bits

/-- The largest remainder that `pick?` accepts: one less than the range moved up to
the highest bit of a word. -/
def zone (bits range : Nat) : Nat := range * Nat.pow 2 (bits - 1 - Nat.log2 range) - 1

/-- The largest remainder that `pickExact?` accepts. -/
def exactZone (bits range : Nat) : Nat :=
  wordCount bits - 1 - (wordCount bits - range) % range

/-- The number below `range` for a word, unless the word is refused. -/
def pick? (bits range v : Nat) : Option Nat :=
  if remainder bits range v ≤ zone bits range then some (scaled bits range v) else none

/-- As `pick?`, with the exact bound. -/
def pickExact? (bits range v : Nat) : Option Nat :=
  if remainder bits range v ≤ exactZone bits range then some (scaled bits range v) else none

theorem wordCount_pos (bits : Nat) : 0 < wordCount bits :=
  Nat.two_pow_pos bits

/-- A word stands for a number below the range. -/
theorem scaled_lt {bits range v : Nat} (small : v < wordCount bits) (positive : 0 < range) :
    scaled bits range v < range := by
  rw [scaled, Nat.div_lt_iff_lt_mul (wordCount_pos bits), Nat.mul_comm]
  exact Nat.mul_lt_mul_of_pos_left small positive

theorem pick?_lt {bits range v i : Nat} (small : v < wordCount bits) (positive : 0 < range)
    (accepted : pick? bits range v = some i) : i < range := by
  rw [pick?] at accepted
  split at accepted
  · exact Option.some.inj accepted ▸ scaled_lt small positive
  · cases accepted

theorem pickExact?_lt {bits range v i : Nat} (small : v < wordCount bits) (positive : 0 < range)
    (accepted : pickExact? bits range v = some i) : i < range := by
  rw [pickExact?] at accepted
  split at accepted
  · exact Option.some.inj accepted ▸ scaled_lt small positive
  · cases accepted

/-- The word zero is never refused. -/
theorem pick?_zero (bits range : Nat) : pick? bits range 0 = some 0 := by
  simp [pick?, remainder, scaled]

theorem pickExact?_zero (bits range : Nat) : pickExact? bits range 0 = some 0 := by
  simp [pickExact?, remainder, scaled]

/-! ## Floats -/

/-- The fraction in the upper 23 bits of a word. -/
def unit32 (w : UInt32) : Float32 :=
  (w >>> 9).toFloat32 * Float32.ofBits 0x34000000

/-- The fraction in the upper 52 bits of a word. -/
def unit64 (w : UInt64) : Float :=
  (w >>> 12).toFloat * Float.ofBits 0x3CB0000000000000

/-- The largest fraction of `unit32`. -/
def lastUnit32 : Float32 := Float32.ofBits 0x3F7FFFFE

/-- The largest fraction of `unit64`. -/
def lastUnit64 : Float := Float.ofBits 0x3FEFFFFFFFFFFFFE

/-- The largest scale, from the one with the given bits downward, that takes no
fraction beyond the bound. -/
def fitScale32 (bound : Float32) : Nat → Float32
  | 0 => 0
  | bits + 1 =>
      let scale := Float32.ofBits (UInt32.ofNat (bits + 1))
      if scale * lastUnit32 + -bound > bound then fitScale32 bound bits else scale

/-- As `fitScale32`, for 64 bits. -/
def fitScale64 (bound : Float) : Nat → Float
  | 0 => 0
  | bits + 1 =>
      let scale := Float.ofBits (UInt64.ofNat (bits + 1))
      if scale * lastUnit64 + -bound > bound then fitScale64 bound bits else scale

/-- The number between `-bound` and `bound` for a word. -/
def symmetric32 (bound : Float32) (w : UInt32) : Float32 :=
  let scale := fitScale32 bound ((bound - -bound) / lastUnit32).toBits.toNat
  unit32 w * scale + -bound

/-- As `symmetric32`, for 64 bits. -/
def symmetric64 (bound : Float) (w : UInt64) : Float :=
  let scale := fitScale64 bound ((bound - -bound) / lastUnit64).toBits.toNat
  unit64 w * scale + -bound

end SchemaData.Uniform
