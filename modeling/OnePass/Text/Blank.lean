import OnePass.Text.CharSet

/-!
White space: the characters that separate tokens and mean nothing else.
-/

namespace OnePass.Text

/-- The characters with the Unicode property White_Space. -/
def blank : CharSet := ⟨[
  (0x09, 0x0d), (0x20, 0x20), (0x85, 0x85), (0xa0, 0xa0), (0x1680, 0x1680), (0x2000, 0x200a),
  (0x2028, 0x2029), (0x202f, 0x202f), (0x205f, 0x205f), (0x3000, 0x3000)]⟩

def isBlank (c : Char) : Bool := blank.contains c

end OnePass.Text
