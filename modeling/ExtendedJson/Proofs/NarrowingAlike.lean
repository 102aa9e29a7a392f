import ExtendedJson.Proofs.Narrowing
import ExtendedJson.Proofs.RowStorage

/-!
# Numbers that are narrowed alike

Narrowing looks at the spelling of a number: at the digits and the scale of a decimal, at the bits of
a double. What comes out should only depend on the number. For two decimals of one value that is so
unless they are zeros, because a zero of negative scale is measured with the zeros that it is written
with and may be found too long. For a number and the decimal that it is stored as it is always so,
because no double is stored as such a zero.

A fractional double is stored as its shortest decimal. That is another number, but between the same
two integers: the numbers that round to the double end half a unit of its last place away from it, and
the next integers are at least a whole unit away.
-/

namespace ExtendedJson

/-! ## Fractional doubles -/

namespace Binary64

variable {x : Binary64} {p q : ℚ}

/-- How many units of the last place make one. -/
def unitsInOne (x : Binary64) : ℕ := pow2 (-x.exponent).toNat

/-- In quarters of a unit, the numbers that round to a fractional double lie between the integers
next to it. -/
theorem rounding_between (hfractional : x.isIntegral = false) :
    x.significand / x.unitsInOne * (4 * x.unitsInOne) < x.rounding.low ∧
      x.rounding.high < (x.significand / x.unitsInOne + 1) * (4 * x.unitsInOne) := by
  have hrest : x.significand % x.unitsInOne ≠ 0 := by
    have := hfractional
    simp only [isIntegral, Bool.or_eq_false_iff, beq_eq_false_iff_ne] at this
    exact this.2
  have hless : x.significand % x.unitsInOne < x.unitsInOne :=
    Nat.mod_lt _ (Nat.pow_pos (by decide))
  have hdigits := Nat.div_add_mod x.significand x.unitsInOne
  have hbelow : x.significand / x.unitsInOne * (4 * x.unitsInOne) =
      4 * (x.unitsInOne * (x.significand / x.unitsInOne)) := by ring
  have habove : (x.significand / x.unitsInOne + 1) * (4 * x.unitsInOne) =
      4 * (x.unitsInOne * (x.significand / x.unitsInOne)) + 4 * x.unitsInOne := by ring
  rw [hbelow, habove]
  simp only [rounding]
  split <;> omega

theorem cast_units (h : x.exponent < 0) (n : ℕ) :
    ((n * (4 * x.unitsInOne) : ℕ) : ℚ) * (2 : ℚ) ^ (x.exponent - 2) = n := by
  have hone : ((4 * x.unitsInOne : ℕ) : ℚ) * (2 : ℚ) ^ (x.exponent - 2) = 1 := by
    rw [unitsInOne, pow2, Nat.pow_eq, show (4 : ℕ) = 2 ^ 2 from rfl, ← Nat.pow_add, Nat.cast_pow,
      Nat.cast_ofNat, ← zpow_natCast, ← zpow_add₀ (by norm_num)]
    rw [show ((2 + (-x.exponent).toNat : ℕ) : ℤ) + (x.exponent - 2) = 0 by omega, zpow_zero]
  rw [Nat.cast_mul, mul_assoc, hone, mul_one]

theorem Within.between (hfractional : x.isIntegral = false) (h : Within x.magnitude p) :
    ((x.significand / x.unitsInOne : ℕ) : ℚ) < p ∧
      p < ((x.significand / x.unitsInOne + 1 : ℕ) : ℚ) := by
  have hexponent : x.exponent < 0 := by
    simp only [isIntegral, Bool.or_eq_false_iff, decide_eq_false_iff_not] at hfractional
    omega
  obtain ⟨hlow, hhigh⟩ := rounding_between hfractional
  have hunit : (0 : ℚ) < (2 : ℚ) ^ (x.exponent - 2) := zpow_pos (by norm_num) _
  constructor
  · rw [← cast_units hexponent]
    exact lt_of_lt_of_le (mul_lt_mul_of_pos_right (by exact_mod_cast hlow) hunit) h.le.1
  · rw [← cast_units hexponent]
    exact lt_of_le_of_lt h.le.2 (mul_lt_mul_of_pos_right (by exact_mod_cast hhigh) hunit)

theorem RoundsTo.towardZero (hfractional : x.isIntegral = false) (h : RoundsTo x q) :
    towardZero q = x.truncate := by
  -- the size lies between two integers, whose lower one is its floor; the sign is put back last
  obtain ⟨p, hp, -, rfl⟩ := h
  obtain ⟨hlow, hhigh⟩ := hp.between hfractional
  have hfloor : ExtendedJson.towardZero p = (x.significand / x.unitsInOne : ℕ) := by
    rw [ExtendedJson.towardZero, if_pos (le_trans (Nat.cast_nonneg _) hlow.le), Int.floor_eq_iff]
    exact ⟨by exact_mod_cast hlow.le, by exact_mod_cast hhigh⟩
  have hexponent : ¬ 0 ≤ x.exponent := by
    simp only [isIntegral, Bool.or_eq_false_iff, decide_eq_false_iff_not] at hfractional
    exact hfractional.1
  rw [truncate, if_neg hexponent, signed]
  cases x.negative with
  | true => rw [if_pos rfl, if_pos rfl, towardZero_neg, hfloor]; rfl
  | false => exact hfloor

theorem towardZero_toDecimal {d : Decimal} (h : x.toDecimal? = some d) :
    towardZero d.toRat = x.truncate := by
  cases hintegral : x.isIntegral with
  | false => exact (roundsTo_toDecimal h).towardZero hintegral
  | true =>
      unfold toDecimal? at h
      rw [hintegral, if_pos rfl] at h
      split at h
      · cases h
      · cases h
        rw [Decimal.toRat_ofInt, towardZero_intCast]

end Binary64

/-! ## Decimals -/

namespace Decimal

variable {d : Decimal}

theorem integerPart?_of_zero (h : d.unscaled = 0) (digits : ℕ) :
    d.integerPart? digits = if -(digits : ℤ) < d.scale then some 0 else none := by
  have hplace : d.leadingPlace = 1 - d.scale := by
    rw [leadingPlace, h]
    rfl
  have htruncate : d.truncate = 0 := by
    rw [truncate_eq_towardZero, toRat_eq_zero h]
    exact towardZero_intCast 0
  rw [integerPart?, hplace, htruncate]
  by_cases hfew : -(digits : ℤ) < d.scale
  · rw [if_neg (by omega : ¬ 1 - d.scale > digits), if_pos hfew, ite_self]
  · rw [if_neg (by omega), if_pos (by omega), if_neg hfew]

end Decimal

/-! ## Answers -/

namespace Value

/-- Two answers agree: they are the same integer, or both complain that there is none in that
range. -/
def Agree {α : Type} (target : Kind) (r s : Except Error α) : Prop :=
  (∃ t, r = .ok t ∧ s = .ok t) ∨
    ∃ shown shown', r = .error (.numericOverflow target.name shown) ∧
      s = .error (.numericOverflow target.name shown')

namespace Word

variable {α : Type} {w : Word α}

/-- There is one right answer for all numbers that are truncated to one integer. -/
theorem Right.agree {p? q? : Option ℚ} {r s : Except Error α} (hr : w.Right p? r)
    (hs : w.Right q? s) (h : p?.map towardZero = q?.map towardZero) : Agree w.target r s := by
  by_cases hfits : ∃ p, p? = some p ∧ InWord w.bits (towardZero p)
  · obtain ⟨p, rfl, hword⟩ := hfits
    obtain ⟨q, rfl, hq⟩ := Option.map_eq_some_iff.mp h.symm
    obtain ⟨t, rfl, ht⟩ := hr.fits p rfl hword
    obtain ⟨u, rfl, hu⟩ := hs.fits q rfl (hq ▸ hword)
    exact .inl ⟨t, rfl, by rw [w.toInt_injective (ht.trans (hq.symm.trans hu.symm))]⟩
  · obtain ⟨shown, rfl⟩ := hr.overflows fun p hp hword => hfits ⟨p, hp, hword⟩
    obtain ⟨shown', rfl⟩ := hs.overflows fun q hq hword => by
      subst hq
      obtain ⟨p, rfl, hp⟩ := Option.map_eq_some_iff.mp h
      exact hfits ⟨p, rfl, hp ▸ hword⟩
    exact .inr ⟨_, _, rfl, rfl⟩

theorem inWord_zero (bits : ℕ) : InWord bits 0 :=
  ⟨neg_nonpos.mpr (by positivity), by positivity⟩

theorem right_ofDecimal {d : Decimal} (h : d.unscaled = 0 → -(w.digits : ℤ) < d.scale) :
    w.Right (some d.toRat) (w.ofDecimal d) := by
  by_cases hzero : d.unscaled = 0
  · refine right_of_finds ?_ d.display
    rw [d.integerPart?_of_zero hzero, if_pos (h hzero), Decimal.toRat_eq_zero hzero]
    exact_mod_cast finds_toInt w.bits 0
  · exact right_ofDecimal_of_ne_zero hzero

theorem ofDecimal_of_zero {d : Decimal} (hzero : d.unscaled = 0) :
    (-(w.digits : ℤ) < d.scale → w.ofDecimal d = .ok (w.ofInt 0)) ∧
      (¬ -(w.digits : ℤ) < d.scale →
        w.ofDecimal d = .error (.numericOverflow w.target.name (String.ofList d.display))) := by
  constructor
  · intro h
    rw [ofDecimal, d.integerPart?_of_zero hzero, if_pos h, fit_some, if_pos (inWord_zero w.bits)]
    rfl
  · intro h
    rw [ofDecimal, d.integerPart?_of_zero hzero, if_neg h]
    rfl

theorem agree_ofDecimal_iff {a b : Decimal} (h : a.toRat = b.toRat) :
    Agree w.target (w.ofDecimal a) (w.ofDecimal b) ↔
      (a.unscaled = 0 → (-(w.digits : ℤ) < a.scale ↔ -(w.digits : ℤ) < b.scale)) := by
  have hzeros : a.unscaled = 0 ↔ b.unscaled = 0 := by
    rw [← Int.sign_eq_zero_iff_zero, Decimal.sign_eq_of_toRat_eq h, Int.sign_eq_zero_iff_zero]
  by_cases ha : a.unscaled = 0
  · obtain ⟨hfound, hnot⟩ := w.ofDecimal_of_zero ha
    obtain ⟨hfound', hnot'⟩ := w.ofDecimal_of_zero (hzeros.mp ha)
    simp only [ha, forall_const]
    by_cases hfew : -(w.digits : ℤ) < a.scale <;> by_cases hfew' : -(w.digits : ℤ) < b.scale
    · rw [hfound hfew, hfound' hfew']
      exact iff_of_true (.inl ⟨_, rfl, rfl⟩) (by simp [hfew, hfew'])
    · rw [hfound hfew, hnot' hfew']
      exact iff_of_false (by simp [Agree]) (by simp [hfew, hfew'])
    · rw [hnot hfew, hfound' hfew']
      exact iff_of_false (by simp [Agree]) (by simp [hfew, hfew'])
    · rw [hnot hfew, hnot' hfew']
      exact iff_of_true (.inr ⟨_, _, rfl, rfl⟩) (by simp [hfew, hfew'])
  · refine iff_of_true ?_ fun hzero => absurd hzero ha
    refine (w.right_ofDecimal fun hzero => absurd hzero ha).agree
      (w.right_ofDecimal fun hzero => absurd (hzeros.mpr hzero) ha) ?_
    rw [h]

end Word

/-! ## Decimals of one value -/

theorem same_decimal_iff {a b : Decimal} :
    (Value.decimal a).same (.decimal b) = true ↔ a.toRat = b.toRat := by
  have hcompare : (Value.decimal a).compare (.decimal b) = .ok (a.compare b) := by
    simp only [compare, compareFlat, compareNumbers?]
  rw [same_iff, hcompare, Except.ok.injEq, Decimal.compare_eq_cmp, cmp_eq_eq_iff]

/-- Two decimal values are equal just when they are one number, and then they are narrowed alike, with
one exception: a zero does not fit in 32 bits from ten zeros on, and not in 64 bits from nineteen zeros
on, while zeros written with fewer do. -/
theorem decimals_narrowed_alike_iff (a b : Decimal) :
    ((Value.decimal a).same (.decimal b) = true ↔ a.toRat = b.toRat) ∧
    (a.toRat = b.toRat →
      (Agree .integer (Value.decimal a).getInteger (Value.decimal b).getInteger ↔
        (a.unscaled = 0 → (-10 < a.scale ↔ -10 < b.scale))) ∧
      (Agree .long (Value.decimal a).getLong (Value.decimal b).getLong ↔
        (a.unscaled = 0 → (-19 < a.scale ↔ -19 < b.scale)))) :=
  ⟨same_decimal_iff, fun h => ⟨word32.agree_ofDecimal_iff h, word64.agree_ofDecimal_iff h⟩⟩

theorem decimals_narrowed_alike_iff_zeros :
    let largest : Decimal := ⟨2147483647, 0⟩
    let padded : Decimal := ⟨2147483647000, 3⟩
    let zero : Decimal := ⟨0, 0⟩
    let zeros : Decimal := ⟨0, -10⟩
    (largest.toRat = padded.toRat ∧
      Agree .integer (Value.decimal largest).getInteger (Value.decimal padded).getInteger) ∧
    (zero.toRat = zeros.toRat ∧ (Value.decimal zero).same (.decimal zeros) = true ∧
      ¬ Agree .integer (Value.decimal zero).getInteger (Value.decimal zeros).getInteger ∧
      Agree .long (Value.decimal zero).getLong (Value.decimal zeros).getLong) := by
  intro largest padded zero zeros
  have hpadded : largest.toRat = padded.toRat := by
    norm_num [largest, padded, Decimal.toRat]
  have hzeros : zero.toRat = zeros.toRat :=
    (Decimal.toRat_eq_zero rfl).trans (Decimal.toRat_eq_zero rfl).symm
  obtain ⟨hsame, halike⟩ := decimals_narrowed_alike_iff zero zeros
  refine ⟨⟨hpadded, ?_⟩, hzeros, hsame.mpr hzeros, ?_, ?_⟩
  · exact ((decimals_narrowed_alike_iff largest padded).2 hpadded).1.mpr (by decide)
  · rw [(halike hzeros).1]
    decide
  · rw [(halike hzeros).2]
    decide

/-! ## Numbers as they are stored -/

theorem exists_decimal_of_toEntry {v : Value} {e : Entry} (hnumeric : v.kind.isNumeric = true)
    (hdecimal : v.kind ≠ .decimal) (h : v.toEntry = .ok e) :
    ∃ d, e.toValue = .decimal d ∧ d.Spellable ∧
      v.number?.map towardZero = some (towardZero d.toRat) := by
  cases v with
  | integer n | long n =>
      cases h
      exact ⟨_, rfl, .inl (le_refl _), by rw [Decimal.toRat_ofInt]; rfl⟩
  | double x =>
      obtain ⟨d, rfl, hd⟩ := ofBinary64_eq_ok h
      have hfinite : x.isFinite = true := by
        rw [← Binary64.isSome_toDecimal?, hd]
        rfl
      refine ⟨d, rfl, Binary64.spellable_toDecimal hd, ?_⟩
      rw [number?, if_pos hfinite, Option.map_some, Binary64.towardZero_toDecimal hd,
        Binary64.truncate_eq_towardZero]
  | decimal d => exact absurd rfl hdecimal
  | _ => simp [kind, Kind.isNumeric] at hnumeric

/-- A number that can be stored is stored as a decimal, and that is narrowed as the number is. -/
theorem stored_narrowed_alike {v : Value} {e : Entry} (hnumeric : v.kind.isNumeric = true)
    (h : v.toEntry = .ok e) :
    ∃ d, e.toValue = .decimal d ∧
      Agree .integer v.getInteger e.toValue.getInteger ∧
      Agree .long v.getLong e.toValue.getLong := by
  by_cases hdecimal : v.kind = .decimal
  · obtain ⟨d, rfl⟩ := kind_eq_decimal_iff.mp hdecimal
    cases h
    exact ⟨d, rfl, word32.agree_ofDecimal_iff rfl |>.mpr fun _ => Iff.rfl,
      word64.agree_ofDecimal_iff rfl |>.mpr fun _ => Iff.rfl⟩
  · obtain ⟨d, hd, hspell, htoward⟩ := exists_decimal_of_toEntry hnumeric hdecimal h
    obtain ⟨hinteger, hlong⟩ := right_of_not_decimal hnumeric hdecimal
    have hscale (hzero : d.unscaled = 0) : 0 ≤ d.scale := hspell.resolve_right fun h => h hzero
    rw [hd]
    refine ⟨d, rfl, hinteger.agree (word32.right_ofDecimal fun hzero => ?_) htoward,
      hlong.agree (word64.right_ofDecimal fun hzero => ?_) htoward⟩
    · exact lt_of_lt_of_le (by decide) (hscale hzero)
    · exact lt_of_lt_of_le (by decide) (hscale hzero)

/-- The double before the first one that is too large for 32 bits. It has no decimal that is shorter
than the one with seven digits behind the point. -/
theorem stored_narrowed_alike_below_limit :
    let v : Value := .double ⟨0x41DFFFFFFFFFFFFF⟩
    let e : Entry := .number ⟨21474836479999998, 7⟩
    v.kind.isNumeric = true ∧ v.toEntry = .ok e ∧ v.getInteger = .ok 2147483647 ∧
      e.toValue.getInteger = .ok 2147483647 := by
  intro v e
  have hdecimal : (⟨0x41DFFFFFFFFFFFFF⟩ : Binary64).toDecimal? = some ⟨21474836479999998, 7⟩ := by
    decide +kernel
  have hstored : v.toEntry = .ok e := by
    change Value.toEntry (.double _) = _
    rw [Value.toEntry, Entry.ofBinary64, Decimal.ofBinary64, hdecimal]
  have hnarrowed : v.getInteger = .ok 2147483647 := by decide +kernel
  obtain ⟨-, -, hinteger, -⟩ := stored_narrowed_alike (v := v) rfl hstored
  refine ⟨rfl, hstored, hnarrowed, ?_⟩
  rw [hnarrowed] at hinteger
  rcases hinteger with ⟨t, ht, hagain⟩ | ⟨_, _, hnone, -⟩
  · cases ht
    exact hagain
  · cases hnone

end Value

end ExtendedJson
