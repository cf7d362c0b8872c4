/-!
# SchemaData.Random.Source -- where random words come from

A source is a state from which words of 32 and of 64 bits and runs of bytes are
taken; each one leaves the state for the next.  Everything random in this library
is a function of such a state, so that equal states give equal draws.

Sources that make bytes from words share `bytesByWords`: it takes as many words as
cover the run and cuts the last one off.
-/

namespace SchemaData

set_option autoImplicit false

class RandomSource (σ : Type) where
  /-- A word of 32 bits. -/
  next32 : σ → UInt32 × σ
  /-- A word of 64 bits. -/
  next64 : σ → UInt64 × σ
  /-- A run of bytes. -/
  nextBytes : Nat → σ → List UInt8 × σ
  /-- A run has the length asked for. -/
  nextBytes_length : ∀ (n : Nat) (s : σ), (nextBytes n s).1.length = n

namespace RandomSource

variable {σ : Type}

/-- The bytes of `k` words in turn, each written by `write`. -/
def bytesOfWords {ω : Type} (next : σ → ω × σ) (write : ω → List UInt8) :
    Nat → σ → List UInt8 × σ
  | 0, s => ([], s)
  | k + 1, s =>
      let (w, s₁) := next s
      let (rest, s₂) := bytesOfWords next write k s₁
      (write w ++ rest, s₂)

/-- A run of `n` bytes from words of `width` bytes. -/
def bytesByWords {ω : Type} (width : Nat) (next : σ → ω × σ) (write : ω → List UInt8)
    (n : Nat) (s : σ) : List UInt8 × σ :=
  let (bytes, s') := bytesOfWords next write ((n + width - 1) / width) s
  (bytes.take n, s')

theorem bytesOfWords_length {ω : Type} {width : Nat} (next : σ → ω × σ)
    {write : ω → List UInt8} (fits : ∀ w, (write w).length = width) (k : Nat) (s : σ) :
    (bytesOfWords next write k s).1.length = k * width := by
  induction k generalizing s with
  | zero => simp [bytesOfWords]
  | succ k ih => simp [bytesOfWords, fits, ih, Nat.succ_mul, Nat.add_comm]

theorem bytesByWords_length {ω : Type} {width : Nat} (positive : 0 < width)
    (next : σ → ω × σ) {write : ω → List UInt8} (fits : ∀ w, (write w).length = width)
    (n : Nat) (s : σ) : (bytesByWords width next write n s).1.length = n := by
  have enough : n ≤ (n + width - 1) / width * width := by
    have := Nat.div_add_mod (n + width - 1) width
    have := Nat.mod_lt (n + width - 1) positive
    rw [Nat.mul_comm]
    omega
  simp only [bytesByWords, List.length_take, bytesOfWords_length next fits]
  omega

/-- The bytes of a word, the low one first. -/
def bytes32 (w : UInt32) : List UInt8 :=
  [w.toUInt8, (w >>> 8).toUInt8, (w >>> 16).toUInt8, (w >>> 24).toUInt8]

/-- The bytes of a word, the low one first. -/
def bytes64 (w : UInt64) : List UInt8 :=
  [w.toUInt8, (w >>> 8).toUInt8, (w >>> 16).toUInt8, (w >>> 24).toUInt8,
    (w >>> 32).toUInt8, (w >>> 40).toUInt8, (w >>> 48).toUInt8, (w >>> 56).toUInt8]

end RandomSource

end SchemaData
