import SchemaData.Text.Unprinted

/-!
# SchemaData.Text.Quoted -- text between quotation marks

Diagnostics show names, symbols, keys and raw settings between quotation marks.
The mark itself and the backslash are escaped with a backslash, the newline,
carriage return, tab and null have letters of their own, and every other
unprinted character is written by its number in hexadecimal between braces.  An
apostrophe stands for itself.
-/

namespace SchemaData.Text

set_option autoImplicit false

/-- The letter that stands behind a backslash for `c`, for the characters that
have one. -/
def escapeLetter? : Char → Option Char
  | '"' => some '"'
  | '\\' => some '\\'
  | '\n' => some 'n'
  | '\r' => some 'r'
  | '\t' => some 't'
  | '\x00' => some '0'
  | _ => none

/-- The written form of one character inside the quotation marks. -/
def escapeChar (c : Char) : List Char :=
  match escapeLetter? c with
  | some letter => ['\\', letter]
  | none =>
      if isUnprinted c then
        ['\\', 'u', '\x7b'] ++ Nat.toDigits 16 c.toNat ++ ['\x7d']
      else [c]

/-- The text between quotation marks, with everything escaped that a reader could
not tell apart. -/
def quote (s : String) : String :=
  String.ofList ('"' :: s.toList.flatMap escapeChar ++ ['"'])

end SchemaData.Text
