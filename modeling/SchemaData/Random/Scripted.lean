import SchemaData.Random.Source

/-!
# SchemaData.Random.Scripted -- a random source with given words

A scripted source hands out given words of 64 bits and, when these are used up, the
words of a split-mix generator.  It counts what it hands out.  A word of 32 bits is
the low half of one of 64, and a run of bytes takes whole words.
-/

namespace SchemaData

set_option autoImplicit false

structure Scripted where
  /-- The words still to be handed out. -/
  words : List UInt64
  /-- The state of the generator that follows them. -/
  state : UInt64
  /-- The number of words handed out. -/
  used : Nat
deriving DecidableEq

namespace Scripted

/-- The source with the given words, and the generator from a given state behind
them. -/
def start (words : List UInt64) (state : UInt64) : Scripted := ⟨words, state, 0⟩

def advance (state : UInt64) : UInt64 := state + 0x9E3779B97F4A7C15

/-- The word of a split-mix state. -/
def mix (state : UInt64) : UInt64 :=
  let z := (state ^^^ (state >>> 30)) * 0xBF58476D1CE4E5B9
  let z := (z ^^^ (z >>> 27)) * 0x94D049BB133111EB
  z ^^^ (z >>> 31)

def next (s : Scripted) : UInt64 × Scripted :=
  match s.words with
  | w :: rest => (w, ⟨rest, s.state, s.used + 1⟩)
  | [] => (mix (advance s.state), ⟨[], advance s.state, s.used + 1⟩)

instance : RandomSource Scripted where
  next32 s := let (w, s') := next s; (w.toUInt32, s')
  next64 := next
  nextBytes := RandomSource.bytesByWords 8 next RandomSource.bytes64
  nextBytes_length :=
    RandomSource.bytesByWords_length (by decide) next fun _ => rfl

end Scripted

end SchemaData
