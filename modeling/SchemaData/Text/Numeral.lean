/-!
# SchemaData.Text.Numeral -- decimal numerals with a limit

A numeral is one ASCII digit or more, after an optional plus sign.  It is read
from the left, and the first fault met decides: a character that is no digit, or a
digit that takes the number beyond the limit.
-/

namespace SchemaData.Text

set_option autoImplicit false

/-- Why a text is no numeral. -/
inductive NumeralFault
  | empty
  | invalidDigit
  | tooLarge
deriving DecidableEq

def NumeralFault.message : NumeralFault → String
  | .empty => "cannot parse integer from empty string"
  | .invalidDigit => "invalid digit found in string"
  | .tooLarge => "number too large to fit in target type"

/-- Reads digits behind those that make `acc`. -/
def readDigits (limit acc : Nat) : List Char → Except NumeralFault Nat
  | [] => .ok acc
  | c :: cs =>
      if c.isDigit then
        let next := 10 * acc + (c.toNat - '0'.toNat)
        if next ≤ limit then readDigits limit next cs else .error .tooLarge
      else .error .invalidDigit

/-- The number of a numeral that does not exceed the limit. -/
def readNumeral (limit : Nat) : List Char → Except NumeralFault Nat
  | [] => .error .empty
  | ['+'] => .error .invalidDigit
  | '+' :: digits => readDigits limit 0 digits
  | digits => readDigits limit 0 digits

end SchemaData.Text
