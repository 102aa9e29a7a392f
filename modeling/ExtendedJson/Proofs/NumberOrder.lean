import ExtendedJson.Value.Order
import ExtendedJson.Proofs.DoubleOrder

/-!
# Numbers of all kinds on one line

Two numbers of one kind are compared as that kind compares its own, and two of different kinds by
their places on the line of all numbers. That makes no difference: each kind lies on the line in its
own order. For integers this is the order of the decimals they become, and for doubles it takes that
the decimals of the finite ones are in order.
-/

namespace ExtendedJson

namespace Decimal

theorem toRat_ofInt (n : Int) : (ofInt n).toRat = n := by
  rw [toRat, ofInt, neg_zero, zpow_zero, mul_one]

theorem compare_ofInt (m n : Int) : (ofInt m).compare (ofInt n) = Ord.compare m n := by
  rw [compare_eq_cmp, toRat_ofInt, toRat_ofInt]
  rcases lt_trichotomy m n with h | h | h
  · rw [compare_lt_iff_lt.mpr h]
    exact (cmp_eq_lt_iff _ _).mpr (by exact_mod_cast h)
  · rw [compare_eq_iff_eq.mpr h]
    exact (cmp_eq_eq_iff _ _).mpr (by exact_mod_cast h)
  · rw [compare_gt_iff_gt.mpr h]
    exact (cmp_eq_gt_iff _ _).mpr (by exact_mod_cast h)

end Decimal

namespace NumericKey

/-! ## The line -/

/-- The number at a finite place, and zero at every other. -/
def toRat : NumericKey → ℚ
  | finite number => number.toRat
  | _ => 0

/-- The line is ordered by stretches, and within the finite one by the numbers. -/
theorem compare_eq_compareLex :
    NumericKey.compare = compareLex (compareOn stretch) (compareOn toRat) := by
  funext a b
  have hfinite (a b : Decimal) : a.compare b = Ord.compare a.toRat b.toRat := by
    rw [Decimal.compare_eq_cmp, cmp_eq_compare]
  cases a with
  | finite a =>
      cases b with
      | finite b =>
          rw [NumericKey.compare, hfinite]
          rfl
      | _ => rfl
  | _ => cases b <;> rfl

instance : Std.TransCmp NumericKey.compare := by
  rw [compare_eq_compareLex]
  infer_instance

/-! ## Doubles -/

/-- Where a double lies that is a number. -/
theorem ofBinary64_cases {x : Binary64} (h : x.isNaN = false) :
    (ofBinary64 x = negativeInfinity ∧ x.orderKey = -(Binary64.infinityMagnitude : Int)) ∨
    (ofBinary64 x = positiveInfinity ∧ x.orderKey = Binary64.infinityMagnitude) ∨
    ∃ d, ofBinary64 x = finite d ∧ x.toDecimal? = some d ∧
      -(Binary64.infinityMagnitude : Int) < x.orderKey ∧
      x.orderKey < Binary64.infinityMagnitude := by
  rw [ofBinary64, if_neg (by simp [h])]
  by_cases hinfinite : x.isInfinite = true
  · have hmagnitude : x.magnitude = Binary64.infinityMagnitude := by
      simpa [Binary64.isInfinite] using hinfinite
    rw [if_pos hinfinite]
    cases hsign : x.negative with
    | true =>
        rw [Binary64.orderKey_of_negative hsign, hmagnitude]
        exact Or.inl ⟨rfl, rfl⟩
    | false =>
        rw [Binary64.orderKey_of_not_negative hsign, hmagnitude]
        exact Or.inr (Or.inl ⟨rfl, rfl⟩)
  · have hmagnitude : x.magnitude < Binary64.infinityMagnitude := by
      simp only [Binary64.isNaN, decide_eq_false_iff_not] at h
      simp only [Binary64.isInfinite, beq_iff_eq] at hinfinite
      omega
    obtain ⟨d, hd⟩ : ∃ d, x.toDecimal? = some d := by
      rw [← Option.isSome_iff_exists, Binary64.isSome_toDecimal?]
      exact decide_eq_true hmagnitude
    rw [if_neg hinfinite, hd]
    refine Or.inr (Or.inr ⟨d, rfl, rfl, ?_⟩)
    unfold Binary64.orderKey Binary64.signed
    split <;> omega

theorem compare_ofBinary64_of_not_nan {x y : Binary64} (hx : x.isNaN = false)
    (hy : y.isNaN = false) :
    (ofBinary64 x).compare (ofBinary64 y) = Ord.compare x.orderKey y.orderKey := by
  have hpos : 0 < Binary64.infinityMagnitude := by decide
  rcases ofBinary64_cases hx with ⟨hx, hxkey⟩ | ⟨hx, hxkey⟩ | ⟨a, hx, ha, hxlow, hxhigh⟩
  · rcases ofBinary64_cases hy with ⟨hy, hykey⟩ | ⟨hy, hykey⟩ | ⟨b, hy, hb, hylow, hyhigh⟩
    · rw [hx, hy, compare_eq_iff_eq.mpr (hxkey.trans hykey.symm)]
      rfl
    · rw [hx, hy, compare_lt_iff_lt.mpr (by omega)]
      rfl
    · rw [hx, hy, compare_lt_iff_lt.mpr (by omega)]
      rfl
  · rcases ofBinary64_cases hy with ⟨hy, hykey⟩ | ⟨hy, hykey⟩ | ⟨b, hy, hb, hylow, hyhigh⟩
    · rw [hx, hy, compare_gt_iff_gt.mpr (by omega)]
      rfl
    · rw [hx, hy, compare_eq_iff_eq.mpr (hxkey.trans hykey.symm)]
      rfl
    · rw [hx, hy, compare_gt_iff_gt.mpr (by omega)]
      rfl
  · rcases ofBinary64_cases hy with ⟨hy, hykey⟩ | ⟨hy, hykey⟩ | ⟨b, hy, hb, hylow, hyhigh⟩
    · rw [hx, hy, compare_gt_iff_gt.mpr (by omega)]
      rfl
    · rw [hx, hy, compare_lt_iff_lt.mpr (by omega)]
      rfl
    · rw [hx, hy, Binary64.compare_orderKey ha hb]
      rfl

/-- The doubles lie on the line in their own order. -/
theorem compare_ofBinary64 (x y : Binary64) :
    (ofBinary64 x).compare (ofBinary64 y) = x.compare y := by
  have hnan {x : Binary64} (h : x.isNaN = true) : ofBinary64 x = nan := by
    rw [ofBinary64, if_pos h]
  have hbehind {x : Binary64} (h : x.isNaN = false) : nan.compare (ofBinary64 x) = .gt := by
    rcases ofBinary64_cases h with ⟨hx, -⟩ | ⟨hx, -⟩ | ⟨d, hx, -⟩ <;> rw [hx] <;> rfl
  have hswap (a b : NumericKey) : a.compare b = (b.compare a).swap := Std.OrientedCmp.eq_swap
  unfold Binary64.compare
  cases hx : x.isNaN with
  | true =>
      cases hy : y.isNaN with
      | true =>
          rw [hnan hx, hnan hy]
          rfl
      | false =>
          rw [hnan hx]
          exact hbehind hy
  | false =>
      cases hy : y.isNaN with
      | true =>
          rw [hnan hy, hswap, hbehind hx]
          rfl
      | false => exact compare_ofBinary64_of_not_nan hx hy

end NumericKey

namespace Value

/-! ## Values -/

theorem compare_int32 (a b : Int32) : Ord.compare a b = Ord.compare a.toInt b.toInt := by
  change compareOfLessAndEq a b = compareOfLessAndEq a.toInt b.toInt
  simp only [compareOfLessAndEq, Int32.lt_iff_toInt_lt, Int32.toInt_inj]

theorem compare_int64 (a b : Int64) : Ord.compare a b = Ord.compare a.toInt b.toInt := by
  change compareOfLessAndEq a b = compareOfLessAndEq a.toInt b.toInt
  simp only [compareOfLessAndEq, Int64.lt_iff_toInt_lt, Int64.toInt_inj]

/-- Numeric values are compared by their places on the line, whatever their kinds. Only where two of
a kind or two integers meet is there anything to show. -/
theorem compareNumbers?_eq (a b : Value) :
    compareNumbers? a b =
      match a.numericKey?, b.numericKey? with
      | some a, some b => some (a.compare b)
      | _, _ => none := by
  have hfinite (m n : Int) :
      (NumericKey.finite (.ofInt m)).compare (.finite (.ofInt n)) = Ord.compare m n :=
    Decimal.compare_ofInt m n
  cases a with
  | integer a =>
      cases b with
      | integer b =>
          simp only [numericKey?, hfinite]
          rw [compareNumbers?, compare_int32]
      | long b =>
          simp only [numericKey?, hfinite]
          rw [compareNumbers?, compare_int64, Int32.toInt_toInt64]
      | _ => rfl
  | long a =>
      cases b with
      | integer b =>
          simp only [numericKey?, hfinite]
          rw [compareNumbers?, compare_int64, Int32.toInt_toInt64]
      | long b =>
          simp only [numericKey?, hfinite]
          rw [compareNumbers?, compare_int64]
      | _ => rfl
  | double x =>
      cases b with
      | double y =>
          simp only [numericKey?, NumericKey.compare_ofBinary64]
          rfl
      | _ => rfl
  | _ => cases b <;> rfl

end Value

end ExtendedJson
