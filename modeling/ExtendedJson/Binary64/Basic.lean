import ExtendedJson.Powers

/-!
# Double precision numbers

A double is its 64 bits: a sign, eleven bits of exponent and 52 bits of fraction. Everything
else here is a reading of those bits in exact integers. A finite double is
`significand * 2 ^ exponent` with its sign, and no operation of this library rounds before it says
so.

Without the sign the bits are a number that grows with the double, so comparing two doubles is
comparing two integers; the two zeros share the integer zero.
-/

namespace ExtendedJson

/-- A double, as its bits. -/
structure Binary64 where
  bits : UInt64
deriving DecidableEq, Inhabited

namespace Binary64

/-- The weight of the lowest exponent bit. -/
def fractionSpan : Nat := pow2 52

/-- The bits of positive infinity. -/
def infinityMagnitude : Nat := 2047 * fractionSpan

def negative (x : Binary64) : Bool := pow2 63 ≤ x.bits.toNat

/-- The bits without the sign. -/
def magnitude (x : Binary64) : Nat := x.bits.toNat % pow2 63

/-- The double of a sign and the remaining bits. -/
def ofMagnitude (negative : Bool) (magnitude : Nat) : Binary64 :=
  ⟨UInt64.ofNat (if negative then pow2 63 + magnitude else magnitude)⟩

def zero : Binary64 := ⟨0⟩

def infinity (negative : Bool) : Binary64 := ofMagnitude negative infinityMagnitude

/-- A quiet not-a-number. -/
def nan : Binary64 := ofMagnitude false (infinityMagnitude + pow2 51)

def isNaN (x : Binary64) : Bool := infinityMagnitude < x.magnitude

def isInfinite (x : Binary64) : Bool := x.magnitude == infinityMagnitude

def isFinite (x : Binary64) : Bool := x.magnitude < infinityMagnitude

def isZero (x : Binary64) : Bool := x.magnitude == 0

/-- The significand as an integer. The leading bit is implied unless the double is subnormal. -/
def significand (x : Binary64) : Nat :=
  let fraction := x.magnitude % fractionSpan
  if x.magnitude / fractionSpan = 0 then fraction else fractionSpan + fraction

/-- The power of two by which the significand is scaled. -/
def exponent (x : Binary64) : Int := ((max (x.magnitude / fractionSpan) 1 : Nat) : Int) - 1075

/-- An integer with the sign of a double. -/
def signed (x : Binary64) (n : Nat) : Int := if x.negative then -(n : Int) else n

/-- Whether a finite double has nothing behind the point. -/
def isIntegral (x : Binary64) : Bool :=
  0 ≤ x.exponent || x.significand % pow2 (-x.exponent).toNat == 0

/-- A finite double truncated toward zero. -/
def truncate (x : Binary64) : Int :=
  x.signed
    (if 0 ≤ x.exponent then x.significand * pow2 x.exponent.toNat
      else x.significand / pow2 (-x.exponent).toNat)

/-- The bits as an integer that grows with the double. -/
def orderKey (x : Binary64) : Int := x.signed x.magnitude

/-- The order of the doubles. Zeros of either sign are equal; not-a-number equals itself, whatever
its bits, and lies above everything else. -/
def compare (x y : Binary64) : Ordering :=
  match x.isNaN, y.isNaN with
  | true, true => .eq
  | true, false => .gt
  | false, true => .lt
  | false, false => Ord.compare x.orderKey y.orderKey

end Binary64

end ExtendedJson
