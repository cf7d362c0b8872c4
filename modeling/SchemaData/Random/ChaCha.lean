import SchemaData.Random.Source

/-!
# SchemaData.Random.ChaCha -- the seeded random source

The key stream of the ChaCha cipher with twelve rounds, a zero nonce and a block
counter of 64 bits, taken as one stream of words of 32 bits.  A word of 64 bits is
two of them, the low half first; a run of bytes takes whole words.

A seed of 64 bits becomes the key of 256 bits by eight steps of a linear
congruential generator with permuted output (`expandSeed`).
-/

namespace SchemaData

set_option autoImplicit false

/-- A key stream: its key, the number of the next block, and the words of the
current block that are still to be taken. -/
structure ChaCha where
  key : List UInt32
  counter : UInt64
  pending : List UInt32
deriving DecidableEq

namespace ChaCha

/-- The sixteen words on which the rounds work. -/
abbrev Block := Vector UInt32 16

def rotateLeft (x : UInt32) (k : UInt32) : UInt32 :=
  (x <<< k) ||| (x >>> (32 - k))

def quarterRound (a b c d : Fin 16) (x : Block) : Block :=
  let x := x.set a (x[a] + x[b])
  let x := x.set d (rotateLeft (x[d] ^^^ x[a]) 16)
  let x := x.set c (x[c] + x[d])
  let x := x.set b (rotateLeft (x[b] ^^^ x[c]) 12)
  let x := x.set a (x[a] + x[b])
  let x := x.set d (rotateLeft (x[d] ^^^ x[a]) 8)
  let x := x.set c (x[c] + x[d])
  x.set b (rotateLeft (x[b] ^^^ x[c]) 7)

/-- A round on the columns and one on the diagonals. -/
def doubleRound (x : Block) : Block :=
  let x := quarterRound 0 4 8 12 x
  let x := quarterRound 1 5 9 13 x
  let x := quarterRound 2 6 10 14 x
  let x := quarterRound 3 7 11 15 x
  let x := quarterRound 0 5 10 15 x
  let x := quarterRound 1 6 11 12 x
  let x := quarterRound 2 7 8 13 x
  quarterRound 3 4 9 14 x

/-- The words from which a block starts: four constants, the key, the counter and
the nonce. -/
def initial (key : List UInt32) (counter : UInt64) : Block :=
  let k (i : Nat) : UInt32 := key.getD i 0
  #v[0x61707865, 0x3320646e, 0x79622d32, 0x6b206574,
    k 0, k 1, k 2, k 3, k 4, k 5, k 6, k 7,
    counter.toUInt32, (counter >>> 32).toUInt32, 0, 0]

/-- One block of the key stream. -/
def block (key : List UInt32) (counter : UInt64) : Block :=
  let start := initial key counter
  let mixed := (List.range 6).foldl (fun x _ => doubleRound x) start
  mixed.zipWith (· + ·) start

/-- One step of the generator that expands seeds. -/
def step (s : UInt64) : UInt64 :=
  s * 6364136223846793005 + 11634580027462260723

/-- The word that a state of that generator gives: a part of it, rotated to the
right by its upper five bits. -/
def output (s : UInt64) : UInt32 :=
  let x := (((s >>> 18) ^^^ s) >>> 27).toUInt32
  let k := (s >>> 59).toUInt32
  (x >>> k) ||| (x <<< (32 - k))

/-- The next `n` words of that generator. -/
def expandSeed : Nat → UInt64 → List UInt32
  | 0, _ => []
  | n + 1, s => output (step s) :: expandSeed n (step s)

/-- The stream of a seed. -/
def ofSeed (seed : UInt64) : ChaCha :=
  ⟨expandSeed 8 seed, 0, []⟩

/-- The next word of the stream. -/
def next (s : ChaCha) : UInt32 × ChaCha :=
  match s.pending with
  | w :: rest => (w, ⟨s.key, s.counter, rest⟩)
  | [] =>
      let b := block s.key s.counter
      (b[0], ⟨s.key, s.counter + 1, b.toList.drop 1⟩)

instance : RandomSource ChaCha where
  next32 := next
  next64 s :=
    let (low, s₁) := next s
    let (high, s₂) := next s₁
    (high.toUInt64 <<< 32 ||| low.toUInt64, s₂)
  nextBytes := RandomSource.bytesByWords 4 next RandomSource.bytes32
  nextBytes_length :=
    RandomSource.bytesByWords_length (by decide) next fun _ => rfl

end ChaCha

end SchemaData
