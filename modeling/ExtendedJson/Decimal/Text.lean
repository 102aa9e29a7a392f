import ExtendedJson.Decimal.Basic

/-!
# Decimal text

Two spellings. Plain text never has an exponent and shows the scale: as many digits behind the
point as the scale says, or that many zeros appended. It is what documents hold. Display text is
for messages, where a far-out scale would fill pages: there it gives way to an exponent.
-/

namespace ExtendedJson.Decimal

/-- The sign in front of a negative number. -/
def signText (d : Decimal) : List Char := if d.unscaled < 0 then ['-'] else []

/-- The digits without sign and point. -/
def digitText (d : Decimal) : List Char := Nat.toDigits 10 d.unscaled.natAbs

/-- Digits with a point before the last `places` of them, and zeros where digits are missing. -/
def pointed (digits : List Char) (places : Nat) : List Char :=
  if places < digits.length then
    digits.take (digits.length - places) ++ '.' :: digits.drop (digits.length - places)
  else '0' :: '.' :: (List.replicate (places - digits.length) '0' ++ digits)

/-- The text without exponent. -/
def plain (d : Decimal) : List Char :=
  d.signText ++
    if d.scale ≤ 0 then d.digitText ++ List.replicate (-d.scale).toNat '0'
    else pointed d.digitText d.scale.toNat

/-- One digit, a point if more follow, the rest, and the exponent with its sign. -/
def scientific (d : Decimal) : List Char :=
  let digits := d.digitText
  let exponent : Int := digits.length - 1 - d.scale
  let mantissa := if digits.length = 1 then digits else digits.take 1 ++ '.' :: digits.drop 1
  mantissa ++ 'E' :: (ofInt exponent).plain

/-- Where display text leaves plain notation: more than this many zeros between point and digits. -/
def displayLeadingZeros : Int := 5

/-- Where display text leaves plain notation: more than this many zeros behind the digits. -/
def displayTrailingZeros : Int := 15

/-- The text for messages: plain unless that would take many zeros. -/
def display (d : Decimal) : List Char :=
  if d.scale - d.digitText.length > displayLeadingZeros then d.signText ++ d.scientific
  else if -d.scale > displayTrailingZeros then
    d.signText ++ d.digitText ++ 'e' :: '+' :: (ofInt (-d.scale)).plain
  else d.plain

end ExtendedJson.Decimal
