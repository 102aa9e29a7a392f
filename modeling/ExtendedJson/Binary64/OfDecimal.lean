import ExtendedJson.Binary64.Nearest
import ExtendedJson.Binary64.Shortest

/-!
# Between decimals and doubles

A finite double becomes a decimal without loss of meaning: an integral one becomes that integer,
digit for digit, and a fractional one its shortest decimal, so that `0.1` is one tenth.

A decimal becomes a double by way of its leading digits. Whole numbers are rounded once. Otherwise
digits that cannot matter are cut off first, nineteen at a time; what is left is rounded once when
it is divided by a power of ten, and is multiplied by a rounded power of ten when it is not. A point
too far out for a 32-bit exponent makes the result infinite on either side.
-/

namespace ExtendedJson

/-- The decimal of a double; none unless it is finite. -/
def Binary64.toDecimal? (x : Binary64) : Option Decimal :=
  if !x.isFinite then none
  else if x.isIntegral then some (Decimal.ofInt x.truncate)
  else some x.shortest

namespace Decimal

/-- An estimate of the decimal length of a number, from its binary length. -/
def lengthEstimate (n : Nat) : Nat :=
  (if n = 0 then 1 else Nat.log2 n + 2) * 30102999566398119521 / pow10 20

/-- How often nineteen digits are cut off before rounding. -/
def cuts (n : Nat) : Nat := (lengthEstimate n - 25) / 19

/-- The double of a nonzero number with a point, without its sign. `n / 10 ^ scale` is rounded once
for a positive scale; a value far below every double is not even built. -/
def scaledBinary64 (n : Nat) (scale : Int) : Binary64 :=
  if pow2 31 ≤ scale.natAbs then Binary64.infinity false
  else if scale ≤ 0 then
    (Binary64.nearest false n 1).mul ((Binary64.ofInt 10).pow (-scale).toNat)
  else if digitCount n + 330 < scale then Binary64.zero
  else Binary64.nearest false n (pow10 scale.toNat)

/-- The double that stands for a decimal; infinite when there is none. -/
def toBinary64 (d : Decimal) : Binary64 :=
  if d.unscaled = 0 then Binary64.zero
  else if d.scale = 0 then Binary64.ofInt d.unscaled
  else
    let n := d.unscaled.natAbs
    let cut := cuts n
    let size := scaledBinary64 (n / pow10 (19 * cut)) (d.scale - 19 * cut)
    Binary64.ofMagnitude (d.unscaled < 0) size.magnitude

end Decimal

end ExtendedJson
