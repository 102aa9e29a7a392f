import ExtendedJson.Decimal.Basic

/-!
# Equal decimals

Two decimals of one sign whose points stand at different places are the same number when the
digits of the one with the longer fraction are those of the other with a zero for each place
between the points. For points close together the product with the power of ten is not built for
that question: it is formed word by word beside the number it should be, in words of 32 bits with
the lowest first, and the first word that differs settles it.

Each step works in 64 bits, and they bound it twice. A word's product that does not fit is
noticed, and the whole product is built after all. A carry that no longer fits on top of its
product is not noticed, and the sum keeps its low 64 bits. So `same` is not quite `compare`. The two
can only part where the points are exactly ten places apart and the number with the shorter
fraction has the word 1844674407: no other power of ten has a multiple that near below `2 ^ 64`.
-/

namespace ExtendedJson.Decimal

/-- The words of a natural number, lowest first. Zero has none. -/
def words (n : Nat) : List UInt32 :=
  if _ : n = 0 then [] else n.toUInt32 :: words (n / UInt32.size)
termination_by n
decreasing_by exact Nat.div_lt_self (by omega) (by decide)

/-- A word times a factor, when that fits in 64 bits. -/
def wordProduct? (factor : UInt64) (word : UInt32) : Option UInt64 :=
  if factor.toNat * word.toNat < UInt64.size then some (factor * word.toUInt64) else none

/-- Whether the first words are those of `factor` times the second number, `carry` being what the
words before have left over. There is no answer when a word's product does not fit. The carry is
added in 64 bits, whether or not it fits on top of the product. -/
def isWordProduct? (factor : UInt64) : UInt64 → List UInt32 → List UInt32 → Option Bool
  | carry, [], [] => some (carry == 0)
  | _, [], _ :: _ => some false
  | carry, p :: ps, [] =>
    if p = carry.toUInt32 then isWordProduct? factor 0 ps [] else some false
  | carry, p :: ps, w :: ws =>
    match wordProduct? factor w with
    | none => none
    | some product =>
      let sum := product + carry
      if p = sum.toUInt32 then isWordProduct? factor (sum >>> 32) ps ws else some false

/-- Whether `padded` is `n` with `places` zeros appended. Fewer bits than any such number has
settle it first, then the words; what the words leave open is decided by building the product. -/
def isPadded (places padded n : Nat) : Bool :=
  if padded.log2 < n.log2 + (pow10 places).log2 then false
  else
    (isWordProduct? (pow10 places).toUInt64 0 (words padded) (words n)).getD
      (padded == n * pow10 places)

/-- Whether two decimals are taken for the same number. Nineteen zeros are the most that a factor of
64 bits can append; points further apart, or at one place, are left to `compare`. -/
def same (a b : Decimal) : Bool :=
  let places := (a.scale - b.scale).natAbs
  if a.unscaled.sign = b.unscaled.sign ∧ a.unscaled ≠ 0 ∧ 0 < places ∧ places < 20 then
    if b.scale < a.scale then isPadded places a.unscaled.natAbs b.unscaled.natAbs
    else isPadded places b.unscaled.natAbs a.unscaled.natAbs
  else a.compare b == .eq

end ExtendedJson.Decimal
