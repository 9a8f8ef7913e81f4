import OnePass.Text.Unprintable

/-!
How a message shows a single character, so that the message stays on one line.
-/

namespace OnePass.Text

/-- Characters shown as a backslash and a letter or sign. -/
def shortEscapes : List (Char × Char) := [
  ('\x00', '0'), ('\t', 't'), ('\r', 'r'), ('\n', 'n'), ('\\', '\\'), ('\x27', '\x27'),
  ('\x22', '\x22')]

/-- The code point in lower-case hexadecimal, without leading zeros. -/
def hex (c : Char) : String := String.ofList (Nat.toDigits 16 c.toNat)

/-- A character as it stands between quotes in a message. -/
def escape (c : Char) : String :=
  match shortEscapes.lookup c with
  | some d => String.ofList ['\\', d]
  | none => if unprintable.contains c then "\\u\x7b" ++ hex c ++ "\x7d" else String.singleton c

end OnePass.Text
