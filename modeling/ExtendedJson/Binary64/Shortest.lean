import ExtendedJson.Binary64.Basic
import ExtendedJson.Decimal.Text

/-!
# The shortest decimal of a double

Around each finite double lies the interval of the numbers that round to it. Its ends are half way
to the neighbours and belong to it exactly if the significand is even. `shortest` finds the decimal
with the fewest digits in that interval, and of those the one nearest to the double; when two are
equally near, the larger.

The search goes from coarse grids of decimals to finer ones. If any point of a grid lies in the
interval, then one of the two around the double does, so those two are all that is looked at. The
exact decimal expansion of the double stands at the end of the search, so that what is found lies in
the interval whatever happens before.
-/

namespace ExtendedJson.Binary64

/-- The numbers that round to a double, in quarters of the unit of its last place, as multiples of
`num / den`: the interval's ends, the double itself, and whether the ends belong to it. -/
structure Rounding where
  low : Nat
  centre : Nat
  high : Nat
  closed : Bool
deriving DecidableEq

/-- Just below a power of two the doubles lie twice as close. -/
def rounding (x : Binary64) : Rounding :=
  let m := x.significand
  let belowGap := if m = fractionSpan ∧ -1074 < x.exponent then 1 else 2
  ⟨4 * m - belowGap, 4 * m, 4 * m + 2, m % 2 == 0⟩

/-- Whether `candidate * step` lies in the interval. -/
def Rounding.contains (r : Rounding) (unit candidate step : Nat) : Bool :=
  let point := candidate * step
  if r.closed then r.low * unit ≤ point && point ≤ r.high * unit
  else r.low * unit < point && point < r.high * unit

/-- The multiple of `step` that stands for the double on the grid of those multiples: one of its
two neighbours there, if one of them rounds to it. Lengths are in units of `unit`. -/
def Rounding.onGrid? (r : Rounding) (unit step : Nat) : Option Nat :=
  let below := r.centre * unit / step
  match r.contains unit below step, r.contains unit (below + 1) step with
  | true, true =>
    if (2 * below + 1) * step ≤ 2 * (r.centre * unit) then some (below + 1) else some below
  | true, false => some below
  | false, true => some (below + 1)
  | false, false => none

/-- The decimal of a nonzero double without its sign, searched on the grid of `10 ^ place` and the
finer ones after it. -/
def searchGrids (x : Binary64) : (grids : Nat) → (place : Int) → Decimal
  | 0, _ =>
    if 0 ≤ x.exponent then ⟨x.significand * pow2 x.exponent.toNat, 0⟩
    else ⟨x.significand * pow5 (-x.exponent).toNat, -x.exponent⟩
  | grids + 1, place =>
    -- a quarter of the last place is `2 ^ quarter`; both lengths are made whole
    let quarter := x.exponent - 2
    let unit := pow2 quarter.toNat * pow10 (-place).toNat
    let step := pow10 place.toNat * pow2 (-quarter).toNat
    match x.rounding.onGrid? unit step with
    | some digits => ⟨digits, -place⟩
    | none => searchGrids x grids (place - 1)

/-- A power of ten above a nonzero double. -/
def placeAbove (x : Binary64) : Int :=
  ((Nat.log2 x.significand : Int) + x.exponent + 1) * 30103 / 100000 + 1

/-- Enough grids to get from `placeAbove` to seventeen digits. -/
def gridCount : Nat := 24

/-- The shortest decimal that rounds to a finite double. -/
def shortest (x : Binary64) : Decimal :=
  if x.isZero then ⟨0, 0⟩
  else
    let found := searchGrids x gridCount x.placeAbove
    ⟨if x.negative then -found.unscaled else found.unscaled, found.scale⟩

/-- The text of a double: its shortest decimal without exponent. A zero keeps its sign. -/
def text (x : Binary64) : List Char :=
  if x.isNaN then ['N', 'a', 'N']
  else if x.isInfinite then if x.negative then ['-', 'i', 'n', 'f'] else ['i', 'n', 'f']
  else if x.isZero ∧ x.negative then ['-', '0']
  else x.shortest.plain

end ExtendedJson.Binary64
