/-!
Integer literals: a run of decimal digits and the number it stands for.
-/

namespace OnePass.Text

/-- The number written by a run of decimal digits. -/
def decimalValue (digits : List Char) : Nat :=
  digits.foldl (fun n c => 10 * n + (c.toNat - '0'.toNat)) 0

/-- The largest integer that a program can write down: the largest signed 64-bit integer. -/
def maxLiteral : Nat := Nat.pow 2 63 - 1

/-- The value of an integer literal, if it is in range. Leading zeros do not matter. -/
def literalValue? (digits : String) : Option Nat :=
  let n := decimalValue digits.toList
  if n ≤ maxLiteral then some n else none

end OnePass.Text
