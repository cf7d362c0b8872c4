import SchemaData.Document
import SchemaData.Text.Blank
import SchemaData.Text.Numeral

/-!
# SchemaData.Config -- how samples are drawn

A configuration is a size budget and perhaps a seed.  It comes from two
environment variables, or from a document with the optional members `size` and
`seed`; what is not given is as in `Config.default`.  The value of a variable is a
numeral, with blanks allowed around it.
-/

namespace SchemaData

set_option autoImplicit false

structure Config where
  /-- The size budget of every draw. -/
  size : Nat
  /-- The seed of the random source; without one each run takes a fresh seed. -/
  seed : Option UInt64
deriving DecidableEq

/-- A variable whose value is no numeral. -/
structure ConfigError where
  name : String
  value : String
  fault : Text.NumeralFault
deriving DecidableEq

def ConfigError.message (e : ConfigError) : String :=
  "invalid " ++ e.name ++ "=" ++ Text.quote e.value ++ ": " ++ e.fault.message

namespace Config

def default : Config := ⟨30, none⟩

/-- The variable that holds the size budget. -/
def sizeVariable : String := "DXI_GEN_SIZE"

/-- The variable that holds the seed. -/
def seedVariable : String := "DXI_GEN_SEED"

/-- The largest size and the largest seed. -/
def limit : Nat := 18446744073709551615

def withSize (c : Config) (size : Nat) : Config := ⟨size, c.seed⟩

def withSeed (c : Config) (seed : UInt64) : Config := ⟨c.size, some seed⟩

/-- The number that a variable holds, if it is set. -/
def readVariable (lookup : String → Option String) (name : String) :
    Except ConfigError (Option Nat) :=
  match lookup name with
  | none => .ok none
  | some value =>
      match Text.readNumeral limit (Text.trim value.toList) with
      | .ok n => .ok (some n)
      | .error fault => .error ⟨name, value, fault⟩

/-- The configuration that the variables give; the size is read first. -/
def ofVariables (lookup : String → Option String) : Except ConfigError Config := do
  let size ← readVariable lookup sizeVariable
  let seed ← readVariable lookup seedVariable
  .ok ⟨size.getD default.size, seed.map UInt64.ofNat⟩

/-! ## Documents -/

/-- An integer from zero to the limit. -/
def decodeNumber : Document → Except DecodeError Nat
  | .integer (.ofNat n) => if n ≤ limit then .ok n else .error .malformed
  | _ => .error .malformed

/-- A seed, or null for none. -/
def decodeSeed : Document → Except DecodeError (Option UInt64)
  | .null => .ok none
  | d => (decodeNumber d).map fun n => some (UInt64.ofNat n)

/-- The configuration with the members that are given. -/
def decodeMembers (size seed : Option Document) : Except DecodeError Config := do
  let size ← size.elim (.ok default.size) decodeNumber
  let seed ← seed.elim (.ok default.seed) decodeSeed
  .ok ⟨size, seed⟩

/-- Reads a configuration from an object, or from the list of its members with the
size first. -/
def decode : Document → Except DecodeError Config
  | .object members =>
      decodeMembers (Document.member? "size" members) (Document.member? "seed" members)
  | .list [] => decodeMembers none none
  | .list [size] => decodeMembers (some size) none
  | .list [size, seed] => decodeMembers (some size) (some seed)
  | _ => .error .malformed

def encode (c : Config) : Document :=
  .object [
    ("seed", match c.seed with
      | none => .null
      | some seed => .integer seed.toNat),
    ("size", .integer c.size)]

end Config

end SchemaData
