/-!
# Blank characters

Two classes. Between the tokens of a document only four characters may stand. Between the fields of
a date or time any character with the Unicode property White_Space may.
-/

namespace ExtendedJson.Text

/-- The characters that may stand between tokens. -/
def isLayout (c : Char) : Bool := c == ' ' || c == '\t' || c == '\n' || c == '\r'

/-- The Unicode property White_Space. -/
def isBlank (c : Char) : Bool :=
  let code := c.toNat
  (0x09 ≤ code && code ≤ 0x0D) || code == 0x20 || code == 0x85 || code == 0xA0 || code == 0x1680 ||
    (0x2000 ≤ code && code ≤ 0x200A) || code == 0x2028 || code == 0x2029 || code == 0x202F ||
    code == 0x205F || code == 0x3000

end ExtendedJson.Text
