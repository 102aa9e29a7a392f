import ExtendedJson.Binary64.OfDecimal
import ExtendedJson.Proofs.DecimalOrder

/-!
# The decimals of doubles are in order

Two rules make the decimal of a double: an integral one becomes that integer, and a fractional one
its shortest decimal. Neither rule has to be known to see that the decimals are in the order of the
doubles. Both stay within the numbers that round to the double, these lie side by side for
consecutive doubles, and an end that two of them share belongs to the even one only.

All of this depends on the bits without the sign, and the neighbour of a double has the next natural
number for them. So what a double needs of itself is said here of its magnitude.
-/

namespace ExtendedJson.Binary64

/-! ## Consecutive magnitudes -/

def significandAt (m : Nat) : Nat :=
  if m / fractionSpan = 0 then m % fractionSpan else fractionSpan + m % fractionSpan

def exponentAt (m : Nat) : Int := ((max (m / fractionSpan) 1 : Nat) : Int) - 1075

def roundingAt (m : Nat) : Rounding :=
  let belowGap := if significandAt m = fractionSpan ∧ -1074 < exponentAt m then 1 else 2
  ⟨4 * significandAt m - belowGap, 4 * significandAt m, 4 * significandAt m + 2,
    significandAt m % 2 == 0⟩

theorem fractionSpan_eq : fractionSpan = 4503599627370496 := by decide

/-- The next double lies one unit of the last place further, and begins a new exponent when the
significands of this one are used up. -/
theorem succ_cases (m : Nat) :
    (exponentAt (m + 1) = exponentAt m ∧ significandAt (m + 1) = significandAt m + 1 ∧
      ¬(significandAt (m + 1) = fractionSpan ∧ -1074 < exponentAt (m + 1))) ∨
    (exponentAt (m + 1) = exponentAt m + 1 ∧ significandAt (m + 1) = fractionSpan ∧
      significandAt m + 1 = 2 * fractionSpan ∧ -1074 < exponentAt (m + 1)) := by
  unfold significandAt exponentAt
  rw [fractionSpan_eq]
  split <;> split <;> omega

theorem significandAt_mod_two (m : Nat) : significandAt m % 2 = m % 2 := by
  unfold significandAt
  rw [fractionSpan_eq]
  split <;> omega

/-- The lower end of the numbers that round to a double, and the upper end. -/
def lowAt (m : Nat) : ℚ := (roundingAt m).low * (2 : ℚ) ^ (exponentAt m - 2)

def highAt (m : Nat) : ℚ := (roundingAt m).high * (2 : ℚ) ^ (exponentAt m - 2)

/-- The numbers that round to consecutive doubles lie side by side. -/
theorem highAt_eq_lowAt_succ (m : Nat) : highAt m = lowAt (m + 1) := by
  rcases succ_cases m with ⟨hexponent, hsignificand, hgap⟩ | ⟨hexponent, hfirst, hlast, hbegin⟩
  · have hlow : (roundingAt (m + 1)).low = (roundingAt m).high := by
      simp only [roundingAt, if_neg hgap]
      omega
    rw [highAt, lowAt, hlow, hexponent]
  · have hlow : (roundingAt m).high = (roundingAt (m + 1)).low * 2 := by
      simp only [roundingAt, if_pos (And.intro hfirst hbegin)]
      rw [fractionSpan_eq] at *
      omega
    rw [highAt, lowAt, hlow, hexponent, Nat.cast_mul, Nat.cast_ofNat, mul_assoc,
      show exponentAt m + 1 - 2 = 1 + (exponentAt m - 2) by omega, zpow_add₀ (by norm_num),
      zpow_one]

theorem lowAt_lt_highAt (m : Nat) : lowAt m < highAt m := by
  have hlt : (roundingAt m).low < (roundingAt m).high := by
    simp only [roundingAt]
    omega
  exact mul_lt_mul_of_pos_right (by exact_mod_cast hlt) (zpow_pos (by norm_num) _)

theorem highAt_strictMono : StrictMono highAt :=
  strictMono_nat_of_lt_succ fun m => by
    rw [highAt_eq_lowAt_succ m]
    exact lowAt_lt_highAt (m + 1)

/-- A number rounds to the doubles of a magnitude. The ends belong to the even doubles. -/
def Within (m : Nat) (q : ℚ) : Prop :=
  if m % 2 = 0 then lowAt m ≤ q ∧ q ≤ highAt m else lowAt m < q ∧ q < highAt m

variable {m n : Nat} {p q : ℚ}

theorem Within.le (h : Within m q) : lowAt m ≤ q ∧ q ≤ highAt m := by
  unfold Within at h
  split at h
  · exact h
  · exact ⟨h.1.le, h.2.le⟩

theorem Within.lt_succ (hp : Within m p) (hq : Within (m + 1) q) : p < q := by
  have hends := highAt_eq_lowAt_succ m
  by_cases heven : m % 2 = 0
  · rw [Within, if_neg (by omega), ← hends] at hq
    exact lt_of_le_of_lt hp.le.2 hq.1
  · rw [Within, if_neg heven, hends] at hp
    exact lt_of_lt_of_le hp.2 hq.le.1

/-- What rounds to a smaller double is smaller. -/
theorem Within.lt (hlt : m < n) (hp : Within m p) (hq : Within n q) : p < q := by
  obtain ⟨k, rfl⟩ : ∃ k, n = k + 1 := ⟨n - 1, by omega⟩
  by_cases hnext : m = k
  · subst hnext
    exact hp.lt_succ hq
  · calc p ≤ highAt m := hp.le.2
      _ < highAt k := highAt_strictMono (by omega)
      _ = lowAt (k + 1) := highAt_eq_lowAt_succ k
      _ ≤ q := hq.le.1

/-! ## Points of a grid -/

theorem zpow_mul_pow_toNat {b : ℚ} (hb : b ≠ 0) (n : Int) :
    b ^ n * b ^ (-n).toNat = b ^ n.toNat := by
  rw [← zpow_natCast, ← zpow_natCast, ← zpow_add₀ hb]
  congr 1
  omega

/-- What both lengths of a search are multiples of. -/
def scaleOf (quarter place : Int) : ℚ := (2 : ℚ) ^ (-quarter).toNat * (10 : ℚ) ^ (-place).toNat

theorem scaleOf_pos (quarter place : Int) : 0 < scaleOf quarter place :=
  mul_pos (pow_pos (by norm_num) _) (pow_pos (by norm_num) _)

theorem cast_unit (quarter place : Int) :
    ((pow2 quarter.toNat * pow10 (-place).toNat : Nat) : ℚ) =
      (2 : ℚ) ^ quarter * scaleOf quarter place := by
  rw [scaleOf, ← mul_assoc, zpow_mul_pow_toNat (by norm_num), pow2, pow10, Nat.pow_eq, Nat.pow_eq]
  push_cast
  rfl

theorem cast_step (quarter place : Int) :
    ((pow10 place.toNat * pow2 (-quarter).toNat : Nat) : ℚ) =
      (10 : ℚ) ^ place * scaleOf quarter place := by
  rw [scaleOf, mul_comm (2 ^ _ : ℚ), ← mul_assoc, zpow_mul_pow_toNat (by norm_num), pow2, pow10,
    Nat.pow_eq, Nat.pow_eq]
  push_cast
  rfl

/-- A point that the search finds rounds to the double. -/
theorem within_of_contains {x : Binary64} {place : Int} {digits : Nat}
    (h : x.rounding.contains (pow2 (x.exponent - 2).toNat * pow10 (-place).toNat) digits
      (pow10 place.toNat * pow2 (-(x.exponent - 2)).toNat) = true) :
    Within x.magnitude (digits * (10 : ℚ) ^ place) := by
  have hend (bound : Nat) :
      ((bound * (pow2 (x.exponent - 2).toNat * pow10 (-place).toNat) : Nat) : ℚ) =
        bound * (2 : ℚ) ^ (x.exponent - 2) * scaleOf (x.exponent - 2) place := by
    rw [Nat.cast_mul, cast_unit, mul_assoc]
  have hpoint : ((digits * (pow10 place.toNat * pow2 (-(x.exponent - 2)).toNat) : Nat) : ℚ) =
      digits * (10 : ℚ) ^ place * scaleOf (x.exponent - 2) place := by
    rw [Nat.cast_mul, cast_step, mul_assoc]
  have hscale := scaleOf_pos (x.exponent - 2) place
  have hclosed : x.rounding.closed = (x.magnitude % 2 == 0) := by
    rw [← significandAt_mod_two]
    rfl
  rw [Rounding.contains, hclosed] at h
  unfold Within
  split
  · next heven =>
      rw [if_pos (by simpa using heven), Bool.and_eq_true, decide_eq_true_iff, decide_eq_true_iff,
        ← Nat.cast_le (α := ℚ), ← Nat.cast_le (α := ℚ), hend, hend, hpoint,
        mul_le_mul_iff_left₀ hscale, mul_le_mul_iff_left₀ hscale] at h
      exact h
  · next hodd =>
      rw [if_neg (by simpa using hodd), Bool.and_eq_true, decide_eq_true_iff, decide_eq_true_iff,
        ← Nat.cast_lt (α := ℚ), ← Nat.cast_lt (α := ℚ), hend, hend, hpoint,
        mul_lt_mul_iff_left₀ hscale, mul_lt_mul_iff_left₀ hscale] at h
      exact h

theorem Rounding.contains_of_onGrid? {r : Rounding} {unit step digits : Nat}
    (h : r.onGrid? unit step = some digits) : r.contains unit digits step = true := by
  unfold Rounding.onGrid? at h
  simp only at h
  split at h
  · next hbelow habove =>
      split at h
      · exact Option.some.inj h ▸ habove
      · exact Option.some.inj h ▸ hbelow
  · next hbelow _ => exact Option.some.inj h ▸ hbelow
  · next _ habove => exact Option.some.inj h ▸ habove
  · simp at h

/-- The double itself is one of the numbers that round to it. -/
theorem within_size (x : Binary64) : Within x.magnitude (x.significand * (2 : ℚ) ^ x.exponent) := by
  have hcentre : (x.significand : ℚ) * (2 : ℚ) ^ x.exponent =
      (4 * x.significand : Nat) * (2 : ℚ) ^ (x.exponent - 2) := by
    rw [show x.exponent = (x.exponent - 2) + 2 by omega, zpow_add₀ (by norm_num)]
    push_cast
    norm_num
    ring
  have hunit : (0 : ℚ) < (2 : ℚ) ^ (x.exponent - 2) := zpow_pos (by norm_num) _
  have hmod : x.significand % 2 = x.magnitude % 2 := significandAt_mod_two x.magnitude
  have hhigh : 4 * x.significand < x.rounding.high := by
    simp only [rounding]
    omega
  have hlow : x.rounding.low ≤ 4 * x.significand := Nat.sub_le _ _
  have hends : (x.rounding.low : ℚ) * (2 : ℚ) ^ (x.exponent - 2) ≤
        (4 * x.significand : Nat) * (2 : ℚ) ^ (x.exponent - 2) ∧
      ((4 * x.significand : Nat) : ℚ) * (2 : ℚ) ^ (x.exponent - 2) <
        x.rounding.high * (2 : ℚ) ^ (x.exponent - 2) :=
    ⟨mul_le_mul_of_nonneg_right (by exact_mod_cast hlow) hunit.le,
      mul_lt_mul_of_pos_right (by exact_mod_cast hhigh) hunit⟩
  rw [hcentre]
  unfold Within
  split
  · exact ⟨hends.1, hends.2.le⟩
  · have hlow' : x.rounding.low < 4 * x.significand := by
      simp only [rounding]
      split <;> omega
    exact ⟨mul_lt_mul_of_pos_right (by exact_mod_cast hlow') hunit, hends.2⟩

theorem cast_size_of_nonneg {x : Binary64} (h : 0 ≤ x.exponent) :
    ((x.significand * pow2 x.exponent.toNat : Nat) : ℚ) =
      x.significand * (2 : ℚ) ^ x.exponent := by
  rw [pow2, Nat.pow_eq]
  push_cast
  rw [← zpow_natCast, Int.toNat_of_nonneg h]

/-- Whatever grid the search begins with, it ends at a number that rounds to the double. -/
theorem within_searchGrids (x : Binary64) (grids : Nat) (place : Int) :
    Within x.magnitude (x.searchGrids grids place).toRat := by
  induction grids generalizing place with
  | zero =>
      suffices (x.searchGrids 0 place).toRat = x.significand * (2 : ℚ) ^ x.exponent by
        rw [this]
        exact within_size x
      rw [searchGrids]
      split
      · next hwhole =>
          rw [Decimal.toRat, neg_zero, zpow_zero, mul_one, ← cast_size_of_nonneg hwhole]
          exact Int.cast_natCast _
      · next hpart =>
          have hfive : ((pow5 (-x.exponent).toNat : Nat) : ℚ) = (5 : ℚ) ^ (-x.exponent) := by
            rw [pow5, Nat.pow_eq, Nat.cast_pow, ← zpow_natCast, Int.toNat_of_nonneg (by omega)]
            rfl
          simp only [Decimal.toRat, neg_neg, Int.cast_mul, Int.cast_natCast]
          rw [hfive, show (10 : ℚ) = 5 * 2 by norm_num, mul_zpow, zpow_neg, mul_assoc,
            ← mul_assoc _ (5 ^ _ : ℚ), inv_mul_cancel₀ (zpow_ne_zero _ (by norm_num)), one_mul]
  | succ grids ih =>
      rw [searchGrids]
      split
      · next digits hdigits =>
          have hwithin := within_of_contains (Rounding.contains_of_onGrid? hdigits)
          rw [Decimal.toRat, neg_neg]
          exact hwithin
      · exact ih (place - 1)

/-! ## Decimals of doubles -/

theorem cast_signed (x : Binary64) (n : Nat) :
    ((x.signed n : Int) : ℚ) = if x.negative then -(n : ℚ) else n := by
  unfold signed
  split
  · rw [Int.cast_neg, Int.cast_natCast]
  · exact Int.cast_natCast n

/-- Nothing is lost when an integral double is truncated. -/
theorem cast_truncate {x : Binary64} (h : x.isIntegral = true) :
    ((x.truncate : Int) : ℚ) = if x.negative then -(x.significand * (2 : ℚ) ^ x.exponent)
      else x.significand * (2 : ℚ) ^ x.exponent := by
  have hsize : ((if 0 ≤ x.exponent then x.significand * pow2 x.exponent.toNat
      else x.significand / pow2 (-x.exponent).toNat : Nat) : ℚ) =
        x.significand * (2 : ℚ) ^ x.exponent := by
    split
    · next hexponent => exact cast_size_of_nonneg hexponent
    · next hexponent =>
        have hdivides : x.significand % pow2 (-x.exponent).toNat = 0 := by
          simpa [isIntegral, hexponent] using h
        have hproduct := Nat.div_mul_cancel (Nat.dvd_of_mod_eq_zero hdivides)
        have hpower : ((pow2 (-x.exponent).toNat : Nat) : ℚ) * (2 : ℚ) ^ x.exponent = 1 := by
          rw [pow2, Nat.pow_eq, Nat.cast_pow, ← zpow_natCast, Int.toNat_of_nonneg (by omega),
            Nat.cast_ofNat, ← zpow_add₀ (by norm_num), Int.add_left_neg, zpow_zero]
        conv => rhs; rw [← hproduct, Nat.cast_mul, mul_assoc, hpower, mul_one]
  rw [truncate, cast_signed, hsize]

/-- A number of the sign of a double whose size rounds to it. The two zeros take zero only. -/
def RoundsTo (x : Binary64) (q : ℚ) : Prop :=
  ∃ p, Within x.magnitude p ∧ (x.magnitude = 0 → p = 0) ∧ q = if x.negative then -p else p

/-- The number that a finite double is. -/
def toRat (x : Binary64) : ℚ :=
  if x.negative then -(x.significand * (2 : ℚ) ^ x.exponent)
  else x.significand * (2 : ℚ) ^ x.exponent

theorem roundsTo_toRat (x : Binary64) : RoundsTo x x.toRat := by
  refine ⟨_, within_size x, fun hmagnitude => ?_, rfl⟩
  have hsignificand : x.significand = 0 := by
    rw [significand, hmagnitude]
    rfl
  rw [hsignificand, Nat.cast_zero, zero_mul]

/-- The decimal of a double rounds to it. -/
theorem roundsTo_toDecimal {x : Binary64} {d : Decimal} (h : x.toDecimal? = some d) :
    RoundsTo x d.toRat := by
  unfold toDecimal? at h
  split at h
  · simp at h
  split at h
  · next hintegral =>
      rw [← Option.some.inj h, Decimal.toRat, Decimal.ofInt, neg_zero, zpow_zero, mul_one,
        cast_truncate hintegral]
      exact roundsTo_toRat x
  · rw [← Option.some.inj h, shortest]
    split
    · next hnull =>
        have hmagnitude : x.magnitude = 0 := by simpa [isZero] using hnull
        obtain ⟨p, hp, hzero, -⟩ := roundsTo_toRat x
        refine ⟨p, hp, hzero, ?_⟩
        rw [hzero hmagnitude, Decimal.toRat_eq_zero rfl, neg_zero, ite_self]
    · next hnull =>
        refine ⟨_, within_searchGrids x gridCount x.placeAbove, ?_, ?_⟩
        · intro hmagnitude
          simp [isZero, hmagnitude] at hnull
        · unfold Decimal.toRat
          cases x.negative with
          | true => simp
          | false => rfl

theorem isSome_toDecimal? (x : Binary64) : x.toDecimal?.isSome = x.isFinite := by
  unfold toDecimal?
  cases x.isFinite with
  | true => cases x.isIntegral <;> rfl
  | false => rfl

/-! ## Order -/

theorem within_zero : Within 0 0 := by
  have hlow : lowAt 0 = 0 := by
    rw [lowAt, show (roundingAt 0).low = 0 by decide, Nat.cast_zero, zero_mul]
  rw [Within, if_pos rfl, hlow]
  refine ⟨le_refl _, ?_⟩
  rw [← hlow]
  exact (lowAt_lt_highAt 0).le

theorem Within.pos (hm : 0 < m) (h : Within m q) : 0 < q := within_zero.lt hm h

/-- The sign and the magnitude are all that a double is. -/
theorem eq_of_magnitude {x y : Binary64} (hnegative : x.negative = y.negative)
    (hmagnitude : x.magnitude = y.magnitude) : x = y := by
  obtain ⟨x⟩ := x
  obtain ⟨y⟩ := y
  have hx := x.toNat_lt
  have hy := y.toNat_lt
  have hspan : pow2 63 = 9223372036854775808 := by decide
  rw [negative, negative, decide_eq_decide, hspan] at hnegative
  rw [magnitude, magnitude, hspan] at hmagnitude
  simp only at hnegative hmagnitude
  rw [UInt64.toNat_inj.mp (by omega : x.toNat = y.toNat)]

theorem orderKey_of_negative {x : Binary64} (h : x.negative = true) :
    x.orderKey = -(x.magnitude : Int) := by
  rw [orderKey, signed, if_pos h]

theorem orderKey_of_not_negative {x : Binary64} (h : x.negative = false) :
    x.orderKey = x.magnitude := by
  rw [orderKey, signed, if_neg (by simp [h])]

/-- What rounds to doubles of different signs lies on either side of zero. -/
theorem RoundsTo.of_negative {x : Binary64} {q : ℚ} (hx : RoundsTo x q)
    (h : x.negative = true) : if x.magnitude = 0 then q = 0 else q < 0 := by
  obtain ⟨p, hp, hzero, hq⟩ := hx
  rw [if_pos h] at hq
  split
  · next hm => rw [hq, hzero hm, neg_zero]
  · next hm =>
      rw [hq]
      exact neg_neg_of_pos (hp.pos (by omega))

theorem RoundsTo.of_not_negative {x : Binary64} {q : ℚ} (hx : RoundsTo x q)
    (h : x.negative = false) : if x.magnitude = 0 then q = 0 else 0 < q := by
  obtain ⟨p, hp, hzero, hq⟩ := hx
  rw [if_neg (by simp [h])] at hq
  split
  · next hm => rw [hq, hzero hm]
  · next hm =>
      rw [hq]
      exact hp.pos (by omega)

theorem RoundsTo.lt {x y : Binary64} {a b : ℚ} (hx : RoundsTo x a) (hy : RoundsTo y b)
    (h : x.orderKey < y.orderKey) : a < b := by
  cases hxsign : x.negative with
  | true =>
      rw [orderKey_of_negative hxsign] at h
      cases hysign : y.negative with
      | true =>
          obtain ⟨p, hp, -, ha⟩ := hx
          obtain ⟨q, hq, -, hb⟩ := hy
          rw [orderKey_of_negative hysign] at h
          rw [ha, hb, if_pos hxsign, if_pos hysign]
          exact neg_lt_neg (hq.lt (by omega) hp)
      | false =>
          have ha := hx.of_negative hxsign
          have hb := hy.of_not_negative hysign
          rw [orderKey_of_not_negative hysign] at h
          split at ha
          · rw [if_neg (by omega)] at hb
            exact ha ▸ hb
          · split at hb
            · exact hb ▸ ha
            · exact ha.trans hb
  | false =>
      rw [orderKey_of_not_negative hxsign] at h
      cases hysign : y.negative with
      | true =>
          rw [orderKey_of_negative hysign] at h
          omega
      | false =>
          obtain ⟨p, hp, -, ha⟩ := hx
          obtain ⟨q, hq, -, hb⟩ := hy
          rw [orderKey_of_not_negative hysign] at h
          rw [ha, hb, if_neg (by simp [hxsign]), if_neg (by simp [hysign])]
          exact hp.lt (by omega) hq

/-- Only the two zeros are different doubles at one place. -/
theorem zeros_of_orderKey_eq {x y : Binary64} (h : x.orderKey = y.orderKey) (hne : x ≠ y) :
    x.magnitude = 0 ∧ y.magnitude = 0 := by
  have hmagnitude : x.negative = y.negative → x.magnitude ≠ y.magnitude :=
    fun hsign hmagnitude => hne (eq_of_magnitude hsign hmagnitude)
  unfold orderKey signed at h
  cases hxsign : x.negative <;> cases hysign : y.negative <;>
    simp [hxsign, hysign] at h hmagnitude <;> omega

theorem RoundsTo.eq_zero {x : Binary64} {q : ℚ} (hx : RoundsTo x q) (h : x.magnitude = 0) :
    q = 0 := by
  obtain ⟨p, -, hzero, hq⟩ := hx
  rw [hq, hzero h, neg_zero, ite_self]

/-- Whatever doubles are read as, if it rounds to them it is in their order. -/
theorem compare_orderKey_of_roundsTo {read : Binary64 → ℚ} {x y : Binary64}
    (hx : RoundsTo x (read x)) (hy : RoundsTo y (read y)) :
    Ord.compare x.orderKey y.orderKey = cmp (read x) (read y) := by
  rcases lt_trichotomy x.orderKey y.orderKey with h | h | h
  · rw [compare_lt_iff_lt.mpr h, (cmp_eq_lt_iff _ _).mpr (hx.lt hy h)]
  · have hread : read x = read y := by
      by_cases hxy : x = y
      · rw [hxy]
      · obtain ⟨hxzero, hyzero⟩ := zeros_of_orderKey_eq h hxy
        rw [hx.eq_zero hxzero, hy.eq_zero hyzero]
    rw [compare_eq_iff_eq.mpr h, (cmp_eq_eq_iff _ _).mpr hread]
  · rw [compare_gt_iff_gt.mpr h, (cmp_eq_gt_iff _ _).mpr (hy.lt hx h)]

/-- The number that the decimal of a double stands for, if it has one. -/
def decimalRat (x : Binary64) : ℚ := (x.toDecimal?.getD default).toRat

theorem decimalRat_of_toDecimal {x : Binary64} {d : Decimal} (h : x.toDecimal? = some d) :
    x.decimalRat = d.toRat := by
  rw [decimalRat, h, Option.getD_some]

/-- Finite doubles are ordered as their decimals. -/
theorem compare_orderKey {x y : Binary64} {a b : Decimal} (hx : x.toDecimal? = some a)
    (hy : y.toDecimal? = some b) : Ord.compare x.orderKey y.orderKey = a.compare b := by
  rw [Decimal.compare_eq_cmp, ← decimalRat_of_toDecimal hx, ← decimalRat_of_toDecimal hy]
  exact compare_orderKey_of_roundsTo (decimalRat_of_toDecimal hx ▸ roundsTo_toDecimal hx)
    (decimalRat_of_toDecimal hy ▸ roundsTo_toDecimal hy)

end ExtendedJson.Binary64
