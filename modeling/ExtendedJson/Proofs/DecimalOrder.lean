import Mathlib.Algebra.Order.Field.Basic
import Mathlib.Algebra.Order.Ring.Unbundled.Basic
import Mathlib.Data.Rat.Cast.Order
import Mathlib.Order.Compare
import Mathlib.Tactic.Positivity
import Mathlib.Tactic.Ring
import ExtendedJson.Decimal.Basic

/-!
# The order of decimals is that of the rationals

`Decimal.compare` never builds more digits than it needs: numbers of one sign whose leading digits
stand at different places are ordered by those places. Here it is compared with the order of the
rational numbers that decimals stand for, after which nothing has to look at signs, places or scales
again.
-/

namespace ExtendedJson.Decimal

/-- The number that a decimal stands for. -/
def toRat (d : Decimal) : ℚ := d.unscaled * (10 : ℚ) ^ (-d.scale)

variable {a b d : Decimal}

/-! ## Signs -/

theorem toRat_pos (h : 0 < d.unscaled) : 0 < d.toRat :=
  mul_pos (by exact_mod_cast h) (zpow_pos (by norm_num) _)

theorem toRat_neg (h : d.unscaled < 0) : d.toRat < 0 :=
  mul_neg_of_neg_of_pos (by exact_mod_cast h) (zpow_pos (by norm_num) _)

theorem toRat_eq_zero (h : d.unscaled = 0) : d.toRat = 0 := by
  rw [toRat, h, Int.cast_zero, zero_mul]

theorem toRat_lt_of_sign_lt (h : a.unscaled.sign < b.unscaled.sign) : a.toRat < b.toRat := by
  rcases lt_trichotomy a.unscaled 0 with ha | ha | ha
  · rcases lt_trichotomy b.unscaled 0 with hb | hb | hb
    · rw [Int.sign_eq_neg_one_of_neg ha, Int.sign_eq_neg_one_of_neg hb] at h
      exact absurd h (lt_irrefl _)
    · rw [toRat_eq_zero hb]
      exact toRat_neg ha
    · exact (toRat_neg ha).trans (toRat_pos hb)
  · have hb : 0 < b.unscaled := by
      rw [ha, Int.sign_zero] at h
      exact Int.sign_pos_iff.mp h
    rw [toRat_eq_zero ha]
    exact toRat_pos hb
  · rcases lt_trichotomy b.unscaled 0 with hb | hb | hb
    · rw [Int.sign_eq_one_of_pos ha, Int.sign_eq_neg_one_of_neg hb] at h
      exact absurd h (by decide)
    · rw [Int.sign_eq_one_of_pos ha, hb] at h
      exact absurd h (by decide)
    · rw [Int.sign_eq_one_of_pos ha, Int.sign_eq_one_of_pos hb] at h
      exact absurd h (lt_irrefl _)

/-! ## Leading places -/

theorem natAbs_lt_pow_digitCount (n : Nat) : n < 10 ^ digitCount n :=
  (Nat.length_toDigits_le_iff (by decide) Nat.length_toDigits_pos).mp (Nat.le_refl _)

theorem pow_digitCount_le {n : Nat} (h : n ≠ 0) : 10 ^ (digitCount n - 1) ≤ n := by
  have hpos : 0 < digitCount n := Nat.length_toDigits_pos
  by_cases hone : digitCount n = 1
  · rw [hone, Nat.sub_self, Nat.pow_zero]
    exact Nat.one_le_iff_ne_zero.mpr h
  · by_contra hlt
    have := (Nat.length_toDigits_le_iff (by decide) (by omega)).mpr (Nat.not_le.mp hlt)
    change digitCount n ≤ digitCount n - 1 at this
    omega

theorem abs_toRat (d : Decimal) : |d.toRat| = d.unscaled.natAbs * (10 : ℚ) ^ (-d.scale) := by
  rw [toRat, abs_mul, abs_of_pos (zpow_pos (by norm_num : (0 : ℚ) < 10) _), ← Int.cast_abs,
    Int.abs_eq_natAbs, Int.cast_natCast]

theorem abs_toRat_lt (d : Decimal) : |d.toRat| < (10 : ℚ) ^ d.leadingPlace := by
  have hlt : (d.unscaled.natAbs : ℚ) < (10 : ℚ) ^ digitCount d.unscaled.natAbs := by
    exact_mod_cast natAbs_lt_pow_digitCount d.unscaled.natAbs
  calc |d.toRat| = d.unscaled.natAbs * (10 : ℚ) ^ (-d.scale) := abs_toRat d
    _ < (10 : ℚ) ^ digitCount d.unscaled.natAbs * (10 : ℚ) ^ (-d.scale) :=
      mul_lt_mul_of_pos_right hlt (zpow_pos (by norm_num) _)
    _ = (10 : ℚ) ^ d.leadingPlace := by
      rw [leadingPlace, ← zpow_natCast, ← zpow_add₀ (by norm_num), sub_eq_add_neg]

theorem le_abs_toRat (h : d.unscaled ≠ 0) : (10 : ℚ) ^ (d.leadingPlace - 1) ≤ |d.toRat| := by
  have hpos : 0 < digitCount d.unscaled.natAbs := Nat.length_toDigits_pos
  have hle : (10 : ℚ) ^ (digitCount d.unscaled.natAbs - 1) ≤ d.unscaled.natAbs := by
    exact_mod_cast pow_digitCount_le (Int.natAbs_ne_zero.mpr h)
  calc (10 : ℚ) ^ (d.leadingPlace - 1)
      = (10 : ℚ) ^ (digitCount d.unscaled.natAbs - 1) * (10 : ℚ) ^ (-d.scale) := by
        rw [leadingPlace, ← zpow_natCast, ← zpow_add₀ (by norm_num), Nat.cast_sub hpos]
        congr 1
        push_cast
        ring
    _ ≤ d.unscaled.natAbs * (10 : ℚ) ^ (-d.scale) :=
      mul_le_mul_of_nonneg_right hle (zpow_nonneg (by norm_num) _)
    _ = |d.toRat| := (abs_toRat d).symm

/-- Further to the left is larger. -/
theorem abs_toRat_lt_of_leadingPlace_lt (h : a.leadingPlace < b.leadingPlace)
    (hb : b.unscaled ≠ 0) : |a.toRat| < |b.toRat| :=
  calc |a.toRat| < (10 : ℚ) ^ a.leadingPlace := abs_toRat_lt a
    _ ≤ (10 : ℚ) ^ (b.leadingPlace - 1) := zpow_le_zpow_right₀ (by norm_num) (by omega)
    _ ≤ |b.toRat| := le_abs_toRat hb

/-! ## Digits at one scale -/

theorem cast_unscaled_mul_pow10 {m : Int} (h : d.scale ≤ m) :
    ((d.unscaled * pow10 (m - d.scale).toNat : Int) : ℚ) = d.toRat * (10 : ℚ) ^ m := by
  have hpow : ((pow10 (m - d.scale).toNat : Nat) : ℚ) = (10 : ℚ) ^ (m - d.scale) := by
    rw [pow10, Nat.pow_eq, Nat.cast_pow, ← zpow_natCast, Int.toNat_of_nonneg (by omega)]
    rfl
  rw [Int.cast_mul, Int.cast_natCast, hpow, toRat, mul_assoc, ← zpow_add₀ (by norm_num)]
  congr 2
  omega

theorem compare_scaled (a b : Decimal) :
    Ord.compare (a.unscaled * (pow10 (b.scale - a.scale).toNat : Int))
      (b.unscaled * (pow10 (a.scale - b.scale).toNat : Int)) = cmp a.toRat b.toRat := by
  have ha := cast_unscaled_mul_pow10 (le_max_left a.scale b.scale)
  have hb := cast_unscaled_mul_pow10 (le_max_right a.scale b.scale)
  rw [show (max a.scale b.scale - a.scale).toNat = (b.scale - a.scale).toNat by omega] at ha
  rw [show (max a.scale b.scale - b.scale).toNat = (a.scale - b.scale).toNat by omega] at hb
  have hcast : StrictMono ((↑) : Int → ℚ) := Int.cast_strictMono
  rw [← cmp_eq_compare, ← hcast.cmp_map_eq, ha, hb, cmp_mul_pos_right (zpow_pos (by norm_num) _)]

/-! ## The order -/

/-- Numbers of one sign are ordered by their sizes, negative ones the other way round. -/
theorem cmp_toRat_of_abs_lt (hsign : a.unscaled.sign = b.unscaled.sign) (ha : a.unscaled ≠ 0)
    (h : |a.toRat| < |b.toRat|) :
    cmp a.toRat b.toRat = if a.unscaled < 0 then .gt else .lt := by
  rcases lt_or_gt_of_ne ha with ha | ha
  · have hb : b.unscaled < 0 := by
      rw [Int.sign_eq_neg_one_of_neg ha] at hsign
      exact Int.sign_eq_neg_one_iff_neg.mp hsign.symm
    rw [if_pos ha, cmp_eq_gt_iff]
    rw [abs_of_neg (toRat_neg ha), abs_of_neg (toRat_neg hb)] at h
    exact neg_lt_neg_iff.mp h
  · have hb : 0 < b.unscaled := by
      rw [Int.sign_eq_one_of_pos ha] at hsign
      exact Int.sign_eq_one_iff_pos.mp hsign.symm
    rw [if_neg (not_lt_of_gt ha), cmp_eq_lt_iff]
    rwa [abs_of_pos (toRat_pos ha), abs_of_pos (toRat_pos hb)] at h

/-- Decimals are compared as the rational numbers that they stand for. -/
theorem compare_eq_cmp (a b : Decimal) : a.compare b = cmp a.toRat b.toRat := by
  unfold compare
  cases hsign : Ord.compare a.unscaled.sign b.unscaled.sign with
  | lt => exact (cmp_eq_lt_iff _ _ |>.mpr (toRat_lt_of_sign_lt (compare_lt_iff_lt.mp hsign))).symm
  | gt => exact (cmp_eq_gt_iff _ _ |>.mpr (toRat_lt_of_sign_lt (compare_gt_iff_gt.mp hsign))).symm
  | eq =>
      have hsigns : a.unscaled.sign = b.unscaled.sign := compare_eq_iff_eq.mp hsign
      by_cases ha : a.unscaled = 0
      · have hb : b.unscaled = 0 := by
          rw [ha, Int.sign_zero] at hsigns
          exact Int.sign_eq_zero_iff_zero.mp hsigns.symm
        change (if a.unscaled = 0 then _ else _) = _
        rw [if_pos ha, toRat_eq_zero ha, toRat_eq_zero hb, cmp_self_eq_eq]
      · have hb : b.unscaled ≠ 0 := by
          intro hb
          rw [hb, Int.sign_zero] at hsigns
          exact ha (Int.sign_eq_zero_iff_zero.mp hsigns)
        change (if a.unscaled = 0 then _ else _) = _
        rw [if_neg ha]
        cases hplace : Ord.compare a.leadingPlace b.leadingPlace with
        | eq => exact compare_scaled a b
        | lt =>
            rw [cmp_toRat_of_abs_lt hsigns ha
              (abs_toRat_lt_of_leadingPlace_lt (compare_lt_iff_lt.mp hplace) hb)]
            rfl
        | gt =>
            have hcmp := cmp_toRat_of_abs_lt hsigns.symm hb
              (abs_toRat_lt_of_leadingPlace_lt (compare_gt_iff_gt.mp hplace) ha)
            have hneg : b.unscaled < 0 ↔ a.unscaled < 0 := by
              rw [← Int.sign_neg_iff, ← hsigns, Int.sign_neg_iff]
            rw [← cmp_swap, hcmp]
            simp only [hneg]
            split <;> rfl

end ExtendedJson.Decimal
