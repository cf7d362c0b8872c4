import SchemaData.DrawError
import SchemaData.Random.Source
import SchemaData.Random.Uniform
import SchemaData.Value

/-!
# SchemaData.Generator -- draws from a random source

A `Generator` makes a datum from a random source under a size budget.  A draw ends
with a value or an error, and with the source as it left it, or it is `unfinished`:
the fuel of its context bounds how deep draws are nested and how often a refused
word is drawn again, so that every draw is a total function.

A context also holds the means to draw a value of a type under the overrides in
force (`Context.draw`).  Generators reach other types only through it, and so an
override can draw values whose parts are overridden in turn.

The combinators below choose, repeat and resize.  They take words from the source
in the order in which they are written, and none on a choice among nothing.
-/

namespace SchemaData

set_option autoImplicit false

/-- How a draw ends. -/
inductive Outcome (σ α : Type)
  | value (a : α) (s : σ)
  | failed (e : DrawError) (s : σ)
  /-- The fuel was used up. -/
  | unfinished

namespace Outcome

variable {σ α β : Type}

def map (f : α → β) : Outcome σ α → Outcome σ β
  | value a s => value (f a) s
  | failed e s => failed e s
  | unfinished => unfinished

/-- Goes on with the value and the source, if there is a value. -/
def andThen (o : Outcome σ α) (next : α → σ → Outcome σ β) : Outcome σ β :=
  match o with
  | value a s => next a s
  | failed e s => failed e s
  | unfinished => unfinished

end Outcome

/-- What a draw knows beside its random source. -/
structure Context (σ : Type) where
  fuel : Nat
  /-- The size budget. -/
  size : Nat
  /-- The number of overrides, if a table of them is in force. -/
  overrideCount : Option Nat
  /-- Draws a value of a type with a given budget under the overrides in force, apart
  from the override of one name. -/
  draw : Option Name → BoundType → Nat → σ → Outcome σ Value

/-- The context with another budget. -/
def Context.withSize {σ : Type} (ctx : Context σ) (size : Nat) : Context σ :=
  ⟨ctx.fuel, size, ctx.overrideCount, ctx.draw⟩

/-- A producer of random data. -/
def Generator (σ α : Type) : Type := Context σ → σ → Outcome σ α

namespace Generator

variable {σ α β : Type}

/-- Always the same value. -/
protected def pure (a : α) : Generator σ α := fun _ s => .value a s

protected def bind (g : Generator σ α) (f : α → Generator σ β) : Generator σ β :=
  fun ctx s => (g ctx s).andThen fun a s' => f a ctx s'

instance : Monad (Generator σ) where
  pure := Generator.pure
  bind := Generator.bind

/-- Fails without taking a word. -/
def fail (e : DrawError) : Generator σ α := fun _ s => .failed e s

/-- The size budget. -/
def size : Generator σ Nat := fun ctx s => .value ctx.size s

/-- The number of overrides in force, if there is a table of them. -/
def overrideCount : Generator σ (Option Nat) := fun ctx s => .value ctx.overrideCount s

/-! ## Budgets -/

/-- The generator that the budget calls for. -/
def sized (f : Nat → Generator σ α) : Generator σ α := fun ctx s => f ctx.size ctx s

/-- Draws with the budget changed by `f`. -/
def scale (f : Nat → Nat) (g : Generator σ α) : Generator σ α :=
  fun ctx s => g (ctx.withSize (f ctx.size)) s

/-- Draws with a fixed budget. -/
def resize (size : Nat) (g : Generator σ α) : Generator σ α := scale (fun _ => size) g

/-! ## Words -/

variable [RandomSource σ]

def word32 : Generator σ UInt32 := fun _ s =>
  let (w, s') := RandomSource.next32 s
  .value w s'

def word64 : Generator σ UInt64 := fun _ s =>
  let (w, s') := RandomSource.next64 s
  .value w s'

def byteRun (n : Nat) : Generator σ (List UInt8) := fun _ s =>
  let (bytes, s') := RandomSource.nextBytes n s
  .value bytes s'

omit [RandomSource σ] in
/-- Takes words until one is accepted, at most `fuel` of them. -/
def firstAccepted {ω : Type} (next : σ → ω × σ) (accept : ω → Option α) :
    Nat → σ → Outcome σ α
  | 0, _ => .unfinished
  | fuel + 1, s =>
      match accept (next s).1 with
      | some a => .value a (next s).2
      | none => firstAccepted next accept fuel (next s).2

/-- A number below `range`, from words of 32 bits. -/
def below32 (range : Nat) : Generator σ Nat := fun ctx s =>
  firstAccepted RandomSource.next32 (fun w => Uniform.pick? 32 range w.toNat) ctx.fuel s

/-- A number below `range`, from words of 64 bits. -/
def below64 (range : Nat) : Generator σ Nat := fun ctx s =>
  firstAccepted RandomSource.next64 (fun w => Uniform.pick? 64 range w.toNat) ctx.fuel s

/-- A number below `range`, each for exactly as many words of 32 bits. -/
def belowExact (range : Nat) : Generator σ Nat := fun ctx s =>
  firstAccepted RandomSource.next32 (fun w => Uniform.pickExact? 32 range w.toNat) ctx.fuel s

/-! ## Repetition -/

omit [RandomSource σ] in
/-- Exactly `n` draws. -/
def vectorOf : Nat → Generator σ α → Generator σ (List α)
  | 0, _ => pure []
  | n + 1, g => do
      let a ← g
      let rest ← vectorOf n g
      pure (a :: rest)

/-- A length from zero to the budget. -/
def length : Generator σ Nat := sized fun n => below64 (n + 1)

/-- As many draws as a length from zero to the budget says. -/
def listOf (g : Generator σ α) : Generator σ (List α) := do
  vectorOf (← length) g

/-! ## Choice -/

/-- A number below `range`, from words of 32 bits unless the range takes longer ones. -/
def belowIndex (range : Nat) : Generator σ Nat :=
  if range < Uniform.wordCount 32 then below32 range else below64 range

/-- One of the items, or nothing if there are none. -/
def choose (items : List α) : Generator σ (Option α) :=
  match items with
  | [] => pure none
  | items => do pure items[← belowIndex items.length]?

/-- One of the items; `what` says what there was to choose from. -/
def chooseFrom (what : String) (items : List α) : Generator σ α := do
  match ← choose items with
  | some a => pure a
  | none => fail (.emptyChoice what)

/-- One of the values. -/
def elements (items : List α) : Generator σ α := chooseFrom "elements" items

/-- A draw from one of the generators. -/
def oneOf (generators : List (Generator σ α)) : Generator σ α := do
  let g ← chooseFrom "one_of" generators
  g

/-- The sum of the weights. -/
def totalWeight : List Nat → Nat
  | [] => 0
  | w :: ws => w + totalWeight ws

/-- The number of the weight in whose share `x` lies. -/
def shareOf : List Nat → Nat → Nat
  | [], _ => 0
  | w :: ws, x => if x < w then 0 else shareOf ws (x - w) + 1

/-- The number of one of the weights, each as likely as its share of their sum. -/
def weightedIndex (weights : List Nat) : Generator σ Nat :=
  if weights = [] then fail (.emptyChoice "frequency: No weights provided in distribution")
  else if totalWeight weights = 0 then
    fail (.emptyChoice "frequency: All weights are zero in distribution")
  else do pure (shareOf weights (← belowExact (totalWeight weights)))

/-- A draw from one of the generators, each as likely as its share of the weights. -/
def frequency (weighted : List (Nat × Generator σ α)) : Generator σ α := do
  let i ← weightedIndex (weighted.map Prod.fst)
  match weighted[i]? with
  | some (_, g) => g
  | none => fail (.emptyChoice "frequency")

end Generator

end SchemaData
