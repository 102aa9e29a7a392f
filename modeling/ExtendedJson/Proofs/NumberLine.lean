import Mathlib.Order.WithBot
import ExtendedJson.Proofs.ValueOrder

/-!
# The line of all numbers

Numeric values of every kind have a key, and a key has a place: a rational number, or one of three
places outside the rationals. Which key a value has is said here without looking at how it is
computed: it holds the decimal that the value can be asked for, and only doubles that have none are
elsewhere. Values are then compared as these places are, whatever their kinds, although two values
of one kind are compared without a key and doubles even without a decimal.
-/

namespace ExtendedJson

/-- The rationals with negative infinity below them, and positive infinity and not-a-number above
them. -/
abbrev NumberLine := WithBot (WithTop (WithTop ℚ))

namespace NumericKey

def place : NumericKey → NumberLine
  | negativeInfinity => ⊥
  | finite number => ((number.toRat : WithTop ℚ) : WithTop (WithTop ℚ))
  | positiveInfinity => ((⊤ : WithTop ℚ) : WithTop (WithTop ℚ))
  | nan => (⊤ : WithTop (WithTop ℚ))

theorem place_lt_of_stretch_lt {k l : NumericKey} (h : k.stretch < l.stretch) :
    k.place < l.place := by
  cases k <;> cases l <;> simp [stretch] at h
  case negativeInfinity.finite | negativeInfinity.positiveInfinity | negativeInfinity.nan =>
    exact WithBot.bot_lt_coe _
  all_goals simp only [place, WithBot.coe_lt_coe, WithTop.coe_lt_top, WithTop.coe_lt_coe]

theorem compare_eq_cmp_place (k l : NumericKey) : k.compare l = cmp k.place l.place := by
  have hcompare : k.compare l =
      (Ord.compare k.stretch l.stretch).then (Ord.compare k.toRat l.toRat) :=
    congrFun₂ compare_eq_compareLex k l
  rcases lt_trichotomy k.stretch l.stretch with h | h | h
  · rw [hcompare, compare_lt_iff_lt.mpr h, (cmp_eq_lt_iff _ _).mpr (place_lt_of_stretch_lt h)]
    rfl
  · have hfinite : StrictMono fun q : ℚ => (((q : WithTop ℚ) : WithTop (WithTop ℚ)) : NumberLine) :=
      WithBot.coe_strictMono.comp (WithTop.coe_strictMono.comp WithTop.coe_strictMono)
    rw [hcompare, compare_eq_iff_eq.mpr h, Ordering.then, ← cmp_eq_compare]
    cases k <;> cases l <;> simp [stretch] at h
    case finite.finite a b => exact (hfinite.cmp_map_eq a.toRat b.toRat).symm
    all_goals rw [cmp_self_eq_eq, cmp_self_eq_eq]
  · rw [hcompare, compare_gt_iff_gt.mpr h, (cmp_eq_gt_iff _ _).mpr (place_lt_of_stretch_lt h)]
    rfl

end NumericKey

namespace Binary64

theorem eq_infinity_iff {x : Binary64} {negative : Bool} :
    x = infinity negative ↔ x.magnitude = infinityMagnitude ∧ x.negative = negative := by
  have hmagnitude : (infinity negative).magnitude = infinityMagnitude := by
    cases negative <;> decide
  have hnegative : (infinity negative).negative = negative := by
    cases negative <;> decide
  constructor
  · rintro rfl
    exact ⟨hmagnitude, hnegative⟩
  · intro h
    exact eq_of_magnitude (h.2.trans hnegative.symm) (h.1.trans hmagnitude.symm)

theorem ofBinary64_eq_ok_iff {x : Binary64} {d : Decimal} :
    Decimal.ofBinary64 x = .ok d ↔ x.toDecimal? = some d := by
  unfold Decimal.ofBinary64
  split <;> simp [*]

end Binary64

namespace Value

/-- A key of a numeric value: that of the decimal that the value can be asked for, and for a double
without a decimal one of the three others. -/
structure HasKey (a : Value) (k : NumericKey) : Prop where
  finite_iff : ∀ d, k = .finite d ↔ a.getDecimal = .ok d
  negativeInfinity_iff : k = .negativeInfinity ↔ a = .double (Binary64.infinity true)
  positiveInfinity_iff : k = .positiveInfinity ↔ a = .double (Binary64.infinity false)
  nan_iff : k = .nan ↔ ∃ x, a = .double x ∧ x.isNaN = true

theorem HasKey.of_ofBinary64 (x : Binary64) : HasKey (.double x) (.ofBinary64 x) := by
  have hnone (h : ¬ x.magnitude < Binary64.infinityMagnitude) : x.toDecimal? = none := by
    rw [← Option.not_isSome_iff_eq_none, Binary64.isSome_toDecimal?]
    simpa [Binary64.isFinite] using h
  unfold NumericKey.ofBinary64
  split
  · next hnan =>
      have hmagnitude : Binary64.infinityMagnitude < x.magnitude := by
        simpa [Binary64.isNaN] using hnan
      constructor <;>
        simp [getDecimal, Binary64.ofBinary64_eq_ok_iff, Binary64.eq_infinity_iff, hnan,
          hnone (by omega), hmagnitude.ne']
  · split
    · next hnan hinfinite =>
        have hmagnitude : x.magnitude = Binary64.infinityMagnitude := by
          simpa [Binary64.isInfinite] using hinfinite
        cases hsign : x.negative <;> constructor <;>
          simp [getDecimal, Binary64.ofBinary64_eq_ok_iff, Binary64.eq_infinity_iff, hnan,
            hnone (by omega), hmagnitude, hsign]
    · next hnan hinfinite =>
        have hmagnitude : x.magnitude ≠ Binary64.infinityMagnitude := by
          simpa [Binary64.isInfinite] using hinfinite
        have hfinite : x.isFinite = true := by
          simp only [Binary64.isNaN, decide_eq_true_eq] at hnan
          simp only [Binary64.isFinite, decide_eq_true_eq]
          omega
        obtain ⟨d, hd⟩ := Option.isSome_iff_exists.mp
          ((Binary64.isSome_toDecimal? x).trans hfinite)
        constructor <;>
          simp [getDecimal, Binary64.ofBinary64_eq_ok_iff, Binary64.eq_infinity_iff, hnan, hd,
            hmagnitude]

theorem ofBinary64_eq_finite_iff {x : Binary64} {d : Decimal} :
    NumericKey.ofBinary64 x = .finite d ↔ x.toDecimal? = some d :=
  ((HasKey.of_ofBinary64 x).finite_iff d).trans Binary64.ofBinary64_eq_ok_iff

/-- Every numeric value has a key, and it is the one that is computed. -/
theorem exists_hasKey {a : Value} (h : a.kind.isNumeric = true) :
    ∃ k, a.numericKey? = some k ∧ HasKey a k := by
  have hdecimal {a : Value} {d : Decimal} (hget : a.getDecimal = .ok d)
      (hdouble : ∀ x, a ≠ .double x) : HasKey a (.finite d) := by
    constructor <;> simp [hget, hdouble]
  cases a with
  | decimal value => exact ⟨_, rfl, hdecimal rfl (by simp)⟩
  | integer value => exact ⟨_, rfl, hdecimal rfl (by simp)⟩
  | long value => exact ⟨_, rfl, hdecimal rfl (by simp)⟩
  | double x => exact ⟨_, rfl, .of_ofBinary64 x⟩
  | _ => simp [kind, Kind.isNumeric] at h

theorem compare_of_numericKey? {a b : Value} {k l : NumericKey} (ha : a.numericKey? = some k)
    (hb : b.numericKey? = some l) : a.compare b = .ok (k.compare l) := by
  have hflat : compareFlat a b = .ok (k.compare l) := by
    unfold compareFlat
    rw [compareNumbers?_eq, ha, hb]
  unfold compare
  split
  · simp [numericKey?] at ha
  · exact hflat

/-- Numbers of whatever kinds are compared as their places on the line. In particular finite
doubles, which are compared by their bits, are in the order of their decimals, whichever rule made
those. -/
theorem compare_numbers {a b : Value} (ha : a.kind.isNumeric = true)
    (hb : b.kind.isNumeric = true) :
    ∃ k l, a.numericKey? = some k ∧ HasKey a k ∧ b.numericKey? = some l ∧ HasKey b l ∧
      a.compare b = .ok (k.compare l) ∧ k.compare l = cmp k.place l.place ∧
      ∀ x y d e, a = .double x → b = .double y → k = .finite d → l = .finite e →
        cmp x.toRat y.toRat = cmp d.toRat e.toRat := by
  obtain ⟨k, hk, hak⟩ := exists_hasKey ha
  obtain ⟨l, hl, hbl⟩ := exists_hasKey hb
  refine ⟨k, l, hk, hak, hl, hbl, compare_of_numericKey? hk hl, k.compare_eq_cmp_place l, ?_⟩
  rintro x y d e rfl rfl rfl rfl
  have hx : x.toDecimal? = some d := Binary64.ofBinary64_eq_ok_iff.mp ((hak.finite_iff d).mp rfl)
  have hy : y.toDecimal? = some e := Binary64.ofBinary64_eq_ok_iff.mp ((hbl.finite_iff e).mp rfl)
  calc cmp x.toRat y.toRat = Ord.compare x.orderKey y.orderKey :=
        (Binary64.compare_orderKey_of_roundsTo (Binary64.roundsTo_toRat x)
          (Binary64.roundsTo_toRat y)).symm
    _ = d.compare e := Binary64.compare_orderKey hx hy
    _ = cmp d.toRat e.toRat := Decimal.compare_eq_cmp d e

/-- The largest double with a half and the double after it, where decimals stop being the shortest
ones, and a decimal between the two. -/
theorem compare_numbers_at_integers :
    let below : Value := double ⟨0x432FFFFFFFFFFFFF⟩
    let whole : Value := double ⟨0x4330000000000000⟩
    let between : Value := decimal ⟨4503599627370495750, 3⟩
    below.getDecimal = .ok ⟨45035996273704955, 1⟩ ∧ whole.getDecimal = .ok ⟨4503599627370496, 0⟩ ∧
      below.compare whole = .ok .lt ∧ below.compare between = .ok .lt ∧
      between.compare whole = .ok .lt := by
  intro below whole between
  have hbelow : below.getDecimal = .ok ⟨45035996273704955, 1⟩ := by decide +kernel
  have hwhole : whole.getDecimal = .ok ⟨4503599627370496, 0⟩ := by decide +kernel
  have hbetween : between.getDecimal = .ok ⟨4503599627370495750, 3⟩ := rfl
  have hcompare {a b : Value} {d e : Decimal} (ha : a.kind.isNumeric = true)
      (hb : b.kind.isNumeric = true) (had : a.getDecimal = .ok d) (hbe : b.getDecimal = .ok e) :
      a.compare b = .ok (d.compare e) := by
    obtain ⟨k, l, -, hak, -, hbl, h, -⟩ := compare_numbers ha hb
    rw [h, (hak.finite_iff d).mpr had, (hbl.finite_iff e).mpr hbe]
    rfl
  refine ⟨hbelow, hwhole, ?_, ?_, ?_⟩
  · exact hcompare rfl rfl hbelow hwhole
  · exact hcompare rfl rfl hbelow hbetween
  · exact hcompare rfl rfl hbetween hwhole

end Value

end ExtendedJson
