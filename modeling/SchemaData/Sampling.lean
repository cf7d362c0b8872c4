import SchemaData.Config
import SchemaData.Generator.Values
import SchemaData.Random.ChaCha

/-!
# SchemaData.Sampling -- draws in a row

`Config.sample` draws values one after another from one seeded source.  A
`Strategy` instead seeds each draw anew, from eight bytes that a test runner hands
out; its draws are `FixedTree`s, which a runner that looks for smaller failing
inputs cannot change.
-/

namespace SchemaData

set_option autoImplicit false

namespace Config

/-- The seed of a run: the configured one, or else the fresh one. -/
def seedOf (c : Config) (fresh : UInt64) : UInt64 := c.seed.getD fresh

/-- Draws `n` values in turn; the first failure ends the run. -/
def sample {α : Type} (c : Config) (fuel : Nat) (fresh : UInt64) (g : Generator ChaCha α)
    (n : Nat) : Outcome ChaCha (List α) :=
  Generator.vectorOf n g (Context.start fuel c.size none) (.ofSeed (c.seedOf fresh))

end Config

/-- A value that is not made smaller. -/
structure FixedTree where
  current : Value

namespace FixedTree

/-- Whether there was a smaller value to turn to. -/
def simplify (_ : FixedTree) : Bool := false

/-- Whether there was a larger value to turn back to. -/
def complicate (_ : FixedTree) : Bool := false

end FixedTree

/-- Values of one type for a test runner. -/
structure Strategy where
  generator : ValueGenerator ChaCha
  size : Nat

namespace Strategy

/-- Values of a type under a table of overrides, with the default budget. -/
def ofType (overrides : Overrides ChaCha) (t : BoundType) : Strategy :=
  ⟨⟨overrides, t⟩, Config.default.size⟩

def withSize (strategy : Strategy) (size : Nat) : Strategy := ⟨strategy.generator, size⟩

/-- The number of which the bytes are the digits, the low one first. -/
def littleEndian : List UInt8 → Nat
  | [] => 0
  | b :: rest => b.toNat + 256 * littleEndian rest

/-- The seed that a runner's bytes give, zeros standing for those that it lacks. -/
def seedOf (bytes : List UInt8) : UInt64 := UInt64.ofNat (littleEndian (bytes.take 8))

/-- One case: the draw seeded by the next eight bytes, and the bytes after them. -/
def newTree (strategy : Strategy) (fuel : Nat) (bytes : List UInt8) :
    Outcome ChaCha FixedTree × List UInt8 :=
  let ctx := Context.start fuel strategy.size none
  ((strategy.generator.generator ctx (.ofSeed (seedOf bytes))).map FixedTree.mk,
    bytes.drop 8)

end Strategy

end SchemaData
