import ExtendedJson.Decimal.Literal

/-!
# Exponents added up in machine words

`Literal.scanExponent` compares the limit with the number that all digits of an exponent spell, and
such a number may be of any size. A reader of a text has a machine word for it. It adds the digits
up while it passes them, and a sum that a word cannot hold stays at the largest word from there on.
The limit is half a word, so the largest word is beyond every limit.
-/

namespace ExtendedJson

/-- The largest machine word. -/
def largestWord : UInt64 := 0xFFFFFFFFFFFFFFFF

/-- The product, or the largest word where the product does not fit. -/
def saturatedProduct (a b : UInt64) : UInt64 :=
  if a.toNat * b.toNat < UInt64.size then a * b else largestWord

/-- The sum, or the largest word where the sum does not fit. -/
def saturatedSum (a b : UInt64) : UInt64 :=
  if a.toNat + b.toNat < UInt64.size then a + b else largestWord

namespace Literal

/-- A digit behind those that were added up. -/
def appendDigit (sum : UInt64) (c : Char) : UInt64 :=
  saturatedSum (saturatedProduct sum 10) (c.toNat - '0'.toNat).toUInt64

/-- Adds up the digits at the front of a text and counts them, given what was added up and counted
before. -/
def sumDigits (sum : UInt64) (passed : Nat) : List Char → UInt64 × Nat
  | [] => (sum, passed)
  | c :: rest =>
    if c.isDigit then sumDigits (appendDigit sum c) (passed + 1) rest else (sum, passed)

/-- Sign and digits behind an `e`, if there is an `e`. The digits are added up in a word. -/
def scanExponentInWords (maxExponent : UInt32) (text : List Char) : Scan (Bool × List Char) :=
  if text.head? = some 'e' ∨ text.head? = some 'E' then
    let (negative, signWidth) := scanExponentSign (text.drop 1)
    let behind := (text.drop 1).drop signWidth
    if behind.head?.any Char.isDigit then
      let (sum, passed) := sumDigits 0 0 behind
      if sum > maxExponent.toUInt64 then .error (.exponentOutOfRange, 1 + signWidth + passed)
      else .ok ((negative, behind.take passed), 1 + signWidth + passed)
    else .error (.noExponentDigit, 1 + signWidth)
  else .ok ((false, []), 0)

end Literal

end ExtendedJson
