/-!
# SchemaData.Text.Ranges -- sets of code points as ranges

A set of code points is a list of closed ranges.  In the tables the ranges ascend and
leave a gap between neighbours.
-/

namespace SchemaData.Text

set_option autoImplicit false

/-- Whether `n` lies in one of the closed ranges. -/
def inRanges (ranges : List (Nat × Nat)) (n : Nat) : Bool :=
  ranges.any fun r => r.1 ≤ n && n ≤ r.2

end SchemaData.Text
