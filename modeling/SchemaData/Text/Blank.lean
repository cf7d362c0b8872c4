import SchemaData.Text.Ranges

/-!
# SchemaData.Text.Blank -- blank characters and trimming

The blank characters are the 25 code points with the Unicode property
`White_Space`.  `trim` removes them from both ends of a text.
-/

namespace SchemaData.Text

set_option autoImplicit false

/-- The code points with the property `White_Space`. -/
def blankRanges : List (Nat × Nat) :=
  [(0x09, 0x0D), (0x20, 0x20), (0x85, 0x85), (0xA0, 0xA0), (0x1680, 0x1680), (0x2000, 0x200A),
   (0x2028, 0x2029), (0x202F, 0x202F), (0x205F, 0x205F), (0x3000, 0x3000)]

def isBlank (c : Char) : Bool :=
  inRanges blankRanges c.toNat

/-- The text without the blank characters at its two ends. -/
def trim (cs : List Char) : List Char :=
  ((cs.dropWhile isBlank).reverse.dropWhile isBlank).reverse

end SchemaData.Text
