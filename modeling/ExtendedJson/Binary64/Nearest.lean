import ExtendedJson.Binary64.Basic

/-!
# Rounding to the nearest double

`nearest` rounds a fraction of natural numbers: it picks the spacing of the doubles around the
value, divides, and lets a half go to the even neighbour. The bits of consecutive doubles are
consecutive integers, so a significand that rounds up to the next power of two needs no case of its
own, and neither does the step from the subnormal doubles to the normal ones.
-/

namespace ExtendedJson.Binary64

/-- The natural number nearest to `num / den`; a half goes to the even neighbour. -/
def roundHalfEven (num den : Nat) : Nat :=
  let quotient := num / den
  let twice := 2 * (num % den)
  if den < twice ∨ (twice = den ∧ quotient % 2 = 1) then quotient + 1 else quotient

/-- The floor of the binary logarithm of `num / den`. -/
def ratioLog (num den : Nat) : Int :=
  let estimate : Int := (Nat.log2 num : Int) - Nat.log2 den
  if num * pow2 (-estimate).toNat < den * pow2 estimate.toNat then estimate - 1 else estimate

/-- The bits of the double nearest to `num / den`, those of infinity when it is too large. -/
def nearestMagnitude (num den : Nat) : Nat :=
  if num = 0 then 0
  else
    let spacing : Int := max (ratioLog num den - 52) (-1074)
    let significand := roundHalfEven (num * pow2 (-spacing).toNat) (den * pow2 spacing.toNat)
    min ((spacing + 1074).toNat * fractionSpan + significand) infinityMagnitude

/-- The double nearest to `num / den`, with the given sign. -/
def nearest (negative : Bool) (num den : Nat) : Binary64 :=
  ofMagnitude negative (nearestMagnitude num den)

/-- The double nearest to an integer. -/
def ofInt (n : Int) : Binary64 := nearest (n < 0) n.natAbs 1

/-- The product, rounded to the nearest double. -/
def mul (x y : Binary64) : Binary64 :=
  let negative := x.negative != y.negative
  if x.isNaN || y.isNaN then nan
  else if x.isInfinite || y.isInfinite then
    if x.isZero || y.isZero then nan else infinity negative
  else
    let exponent := x.exponent + y.exponent
    nearest negative (x.significand * y.significand * pow2 exponent.toNat) (pow2 (-exponent).toNat)

/-- One round of `pow` for each bit of `n`: `square` holds the power of the base that the lowest
bit stands for. -/
def powFrom (product square : Binary64) (n : Nat) : Binary64 :=
  let product := if n % 2 = 1 then product.mul square else product
  if _ : n / 2 = 0 then product else powFrom product (square.mul square) (n / 2)
termination_by n
decreasing_by omega

/-- A power by repeated squaring. Each product is rounded, so this is in general not the double
nearest to the exact power. -/
def pow (x : Binary64) (n : Nat) : Binary64 := powFrom (ofInt 1) x n

end ExtendedJson.Binary64
