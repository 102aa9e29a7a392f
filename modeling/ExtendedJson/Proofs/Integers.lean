import Mathlib.Data.Rat.Floor
import ExtendedJson.Proofs.DecimalEquality

/-!
# Decimals that are integers

A decimal stands for an integer at any scale: `1.50` does not and `15.0` does. Here the integer is
told from the rational number that a decimal stands for. `toInt?` finds it whenever its digits are
few enough, since the digits before the point are as many as the integer has. Whether the integer,
written with its point behind the last digit, is taken for the same number is another matter,
because that is settled by a product that may lose a carry.
-/

namespace ExtendedJson.Decimal

variable {d : Decimal} {n : Int}

/-! ## The integer -/

theorem unscaled_eq_of_toRat (hvalue : d.toRat = n) (hscale : 0 ≤ d.scale) :
    d.unscaled = n * pow10 d.scale.toNat := by
  have hcast := cast_unscaled_mul_pow10 (d := d) (m := d.scale) (Int.le_refl _)
  have hpow : ((pow10 d.scale.toNat : Nat) : ℚ) = (10 : ℚ) ^ d.scale := by
    rw [pow10, Nat.pow_eq, Nat.cast_pow, ← zpow_natCast, Int.toNat_of_nonneg hscale]
    rfl
  rw [Int.sub_self, hvalue, ← hpow] at hcast
  have hexact : d.unscaled * pow10 (0 : Int).toNat = n * pow10 d.scale.toNat := by
    exact_mod_cast hcast
  rwa [show pow10 (0 : Int).toNat = 1 from rfl, Int.natCast_one, Int.mul_one] at hexact

theorem mul_pow10_eq_of_toRat (hvalue : d.toRat = n) (hscale : d.scale ≤ 0) :
    d.unscaled * pow10 (-d.scale).toNat = n := by
  have hcast := cast_unscaled_mul_pow10 (d := d) (m := 0) hscale
  rw [zpow_zero, mul_one, Int.zero_sub, hvalue] at hcast
  exact_mod_cast hcast

theorem abs_toRat_of_toRat (hvalue : d.toRat = n) : |d.toRat| = n.natAbs := by
  rw [hvalue, ← Int.cast_abs, Int.abs_eq_natAbs, Int.cast_natCast]

theorem leadingPlace_pos (hvalue : d.toRat = n) (hn : n ≠ 0) : 0 < d.leadingPlace := by
  have hone : (1 : ℚ) ≤ n.natAbs := by
    exact_mod_cast Nat.one_le_iff_ne_zero.mpr (Int.natAbs_ne_zero.mpr hn)
  by_contra hplace
  have hsmall : |d.toRat| < 1 :=
    (abs_toRat_lt d).trans_le (zpow_le_one_of_nonpos₀ (by norm_num) (by omega))
  rw [abs_toRat_of_toRat hvalue] at hsmall
  exact absurd hone (not_le.mpr hsmall)

theorem leadingPlace_le (hvalue : d.toRat = n) (hd : d.unscaled ≠ 0) {digits : Nat}
    (hdigits : n.natAbs < 10 ^ digits) : d.leadingPlace ≤ digits := by
  have hlarge := le_abs_toRat hd
  rw [abs_toRat_of_toRat hvalue] at hlarge
  have hsmall : (n.natAbs : ℚ) < (10 : ℚ) ^ (digits : Int) := by
    rw [zpow_natCast]
    exact_mod_cast hdigits
  have := (zpow_lt_zpow_iff_right₀ (by norm_num : (1 : ℚ) < 10)).mp (hlarge.trans_lt hsmall)
  omega

theorem isInteger_of_toRat (hvalue : d.toRat = n) (hn : n ≠ 0) : d.isInteger = true := by
  unfold isInteger
  by_cases hscale : d.scale ≤ 0
  · simp [hscale]
  · have hunscaled := unscaled_eq_of_toRat hvalue (by omega)
    have hdivides : d.unscaled.natAbs % pow10 d.scale.toNat = 0 := by
      rw [hunscaled, Int.natAbs_mul, Int.natAbs_natCast, Nat.mul_mod_left]
    simp [leadingPlace_pos hvalue hn, hdivides]

theorem truncate_of_toRat (hvalue : d.toRat = n) : d.truncate = n := by
  unfold truncate
  split
  · next hscale => exact mul_pow10_eq_of_toRat hvalue hscale
  · have hpow : (pow10 d.scale.toNat : Int) ≠ 0 := by
      exact_mod_cast Nat.pos_iff_ne_zero.mp (Nat.pow_pos (by decide))
    rw [unscaled_eq_of_toRat hvalue (by omega), Int.mul_tdiv_cancel _ hpow]

/-- The integer that a decimal stands for is found when its digits are few enough. -/
theorem toInt?_of_toRat (hvalue : d.toRat = n) {digits : Nat} (hdigits : n.natAbs < 10 ^ digits) :
    d.toInt? digits = some n := by
  unfold toInt?
  split
  · next hzero =>
      rw [toRat_eq_zero hzero] at hvalue
      rw [show n = 0 by exact_mod_cast hvalue.symm]
  · next hd =>
      have hn : n ≠ 0 := by
        rintro rfl
        have := le_abs_toRat hd
        rw [hvalue, Int.cast_zero, abs_zero] at this
        exact absurd this (not_le.mpr (zpow_pos (by norm_num) _))
      have hpos := leadingPlace_pos hvalue hn
      have hle := leadingPlace_le hvalue hd hdigits
      rw [if_pos (isInteger_of_toRat hvalue hn), integerPart?, if_neg (by omega), if_neg (by omega),
        truncate_of_toRat hvalue]

/-! ## Equality with the integer -/

/-- The integer below a decimal, with its point behind the last digit. -/
def integral (d : Decimal) : Decimal := .ofInt ⌊d.toRat⌋

theorem integral_of_toRat (hvalue : d.toRat = n) : d.integral = .ofInt n := by
  rw [integral, hvalue, Int.floor_intCast]

/-- The decimals of scale ten whose digits are not taken for their integer followed by zeros, among
integers of 64 bits. -/
def CarryLost (d : Decimal) : Prop :=
  d.scale = 10 ∧ 7922816251426433760 ≤ |d.toRat| ∧ |d.toRat| ≤ 7922816251677867879

/-- Among numbers of 64 bits those that lose a carry over ten zeros have 1844674407 as their upper
word, and a lower word that is large enough to carry and not larger than the upper one. -/
theorem mistaken_iff_of_lt (hn : n.natAbs < 2 ^ 64) :
    Mistaken ⟨n, -10⟩ ↔ 7922816251426433760 ≤ n.natAbs ∧ n.natAbs ≤ 7922816251677867879 := by
  rw [Mistaken, and_iff_right rfl]
  simp only
  generalize n.natAbs = m at hn
  have hlow : word m 0 = m % 2 ^ 32 := word_zero m
  have hhigh : word m 1 = m / 2 ^ 32 := by
    rw [word, Nat.mul_one, Nat.mod_eq_of_lt (by omega)]
  have hbeyond {i : Nat} (hi : 2 ≤ i) : word m i = 0 := by
    have hshort : m < 2 ^ (32 * i) :=
      hn.trans_le (Nat.pow_le_pow_right (by decide) (by omega))
    rw [word, Nat.div_eq_of_lt hshort, Nat.zero_mod]
  constructor
  · rintro ⟨i, hword, hcarry, hwords⟩
    obtain rfl | rfl | hi : i = 0 ∨ i = 1 ∨ 2 ≤ i := by omega
    · rw [Nat.mul_zero, Nat.pow_zero, Nat.mod_one, Nat.zero_mul] at hcarry
      omega
    · have := hwords 0 (by omega)
      rw [Nat.mul_one] at hcarry
      omega
    · rw [hbeyond hi] at hword
      omega
  · rintro ⟨hleast, hmost⟩
    refine ⟨1, by omega, by rw [Nat.mul_one]; omega, fun j _ => ?_⟩
    obtain rfl | rfl | hj : j = 0 ∨ j = 1 ∨ 2 ≤ j := by omega
    · omega
    · omega
    · rw [hbeyond hj]
      omega

theorem carryLost_iff (hvalue : d.toRat = n) :
    d.CarryLost ↔ d.scale = 10 ∧ 7922816251426433760 ≤ n.natAbs ∧
      n.natAbs ≤ 7922816251677867879 := by
  rw [CarryLost, abs_toRat_of_toRat hvalue]
  norm_cast

/-- A decimal that stands for an integer of 64 bits equals the integer, unless a carry is lost. -/
theorem same_integral_iff (hvalue : d.toRat = n) (hn : n.natAbs < 2 ^ 64) :
    d.integral.same d = true ↔ ¬ d.CarryLost := by
  have hratio : (ofInt n).toRat = d.toRat := by
    rw [hvalue]
    simp [toRat, ofInt]
  rw [integral_of_toRat hvalue, same_iff_of_toRat_eq hratio, carryLost_iff hvalue]
  refine not_congr ?_
  constructor
  · rintro (⟨hten, hlost⟩ | ⟨hten, hlost⟩)
    -- without digits behind the point there are too few digits to lose a carry
    · have hscale : d.scale = -10 := by simp only [ofInt] at hten; omega
      have hpadded := congrArg Int.natAbs (mul_pow10_eq_of_toRat hvalue (by omega))
      rw [Int.natAbs_mul, Int.natAbs_natCast, hscale,
        show pow10 (-(-10) : Int).toNat = 10000000000 from rfl] at hpadded
      have := (mistaken_iff_of_lt (by omega)).mp hlost
      omega
    · exact ⟨by simpa [ofInt] using hten, (mistaken_iff_of_lt hn).mp hlost⟩
  · rintro ⟨hten, hbounds⟩
    exact Or.inr ⟨by simpa [ofInt] using hten, (mistaken_iff_of_lt hn).mpr hbounds⟩

end ExtendedJson.Decimal
