/-!
Sets of characters, given by ranges of code points.
-/

namespace OnePass.Text

/-- The characters of some ranges of code points, both ends included. -/
structure CharSet where
  ranges : List (Nat × Nat)

/-- The character lies in one of the ranges. -/
def CharSet.contains (s : CharSet) (c : Char) : Bool :=
  s.ranges.any fun r => r.1 ≤ c.toNat && c.toNat ≤ r.2

end OnePass.Text
