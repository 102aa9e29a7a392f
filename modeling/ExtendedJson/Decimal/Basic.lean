import ExtendedJson.Powers

/-!
# Decimal numbers

A decimal is an integer and the place of its point: `unscaled / 10 ^ scale`. The scale is data
and not only a spelling, since `1.0` and `1.00` are kept apart wherever a decimal is stored, while
the order below sees the number alone.

Scales may be as far out as a machine word goes, so nothing here may raise ten to a scale before
it has looked at how long the result would be. `leadingPlace` is that look: it says how many
digits stand before the point, and two numbers of one sign with different leading places are
already ordered.
-/

namespace ExtendedJson

/-- The number `unscaled / 10 ^ scale`. -/
structure Decimal where
  unscaled : Int
  scale : Int
deriving DecidableEq, Inhabited

namespace Decimal

/-- An integer, with its point behind the last digit. -/
def ofInt (n : Int) : Decimal := ⟨n, 0⟩

/-- The length of a natural number in decimal. Zero is written with one digit. -/
def digitCount (n : Nat) : Nat := (Nat.toDigits 10 n).length

/-- How many digits stand before the point. Zero or negative when the number is below one, and
one more than the number of appended zeros for a zero of negative scale. -/
def leadingPlace (d : Decimal) : Int := digitCount d.unscaled.natAbs - d.scale

/-- The order of the numbers, whatever their scales: signs first, then leading places, and only
for equal leading places the digits, brought to one scale. -/
def compare (a b : Decimal) : Ordering :=
  match Ord.compare a.unscaled.sign b.unscaled.sign with
  | .eq =>
    if a.unscaled = 0 then .eq
    else
      match Ord.compare a.leadingPlace b.leadingPlace with
      | .eq =>
        Ord.compare (a.unscaled * pow10 (b.scale - a.scale).toNat)
          (b.unscaled * pow10 (a.scale - b.scale).toNat)
      | unequal => if a.unscaled < 0 then unequal.swap else unequal
  | unequal => unequal

/-- A nonzero number without its trailing zeros, and how many were removed. -/
def stripZeros (n : Nat) : Nat × Nat :=
  if _ : n ≠ 0 ∧ n % 10 = 0 then
    let (stripped, removed) := stripZeros (n / 10)
    (stripped, removed + 1)
  else (n, 0)
termination_by n
decreasing_by omega

/-- The form in which each number has one spelling: no trailing zeros, and zero at scale zero. -/
def normalize (d : Decimal) : Decimal :=
  if d.unscaled = 0 then ⟨0, 0⟩
  else
    let (stripped, removed) := stripZeros d.unscaled.natAbs
    ⟨d.unscaled.sign * stripped, d.scale - removed⟩

/-- The integer part: the number truncated toward zero. -/
def truncate (d : Decimal) : Int :=
  if d.scale ≤ 0 then d.unscaled * pow10 (-d.scale).toNat
  else d.unscaled.tdiv (pow10 d.scale.toNat)

/-- The integer part when at most `maxDigits` digits stand before the point. The digits are counted
first, so that no number is built that would only be thrown away. A zero of negative scale counts
the zeros it is written with. -/
def integerPart? (maxDigits : Nat) (d : Decimal) : Option Int :=
  if d.leadingPlace ≤ 0 then some 0
  else if d.leadingPlace > maxDigits then none
  else some d.truncate

/-- Whether there is nothing behind the point. -/
def isInteger (d : Decimal) : Bool :=
  d.scale ≤ 0 || d.unscaled == 0 ||
    (d.leadingPlace > 0 && d.unscaled.natAbs % pow10 d.scale.toNat == 0)

/-- The integer that a decimal is, when it has at most `maxDigits` digits. -/
def toInt? (maxDigits : Nat) (d : Decimal) : Option Int :=
  if d.unscaled = 0 then some 0
  else if d.isInteger then d.integerPart? maxDigits
  else none

end Decimal

end ExtendedJson
