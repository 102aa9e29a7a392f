import ExtendedJson.Value.Number
import ExtendedJson.Proofs.DoubleOrder
import ExtendedJson.Proofs.Integers

/-!
# Narrowing to words

What a number of any kind is narrowed to is said here of the rational number that it stands for: the
integer next to it on the side of zero, if that is a word of so many bits, and the complaint about an
overflow if it is not. Doubles are truncated by their bits. Decimals are measured first, by the place
of their leading digit, and only those are truncated that are neither below one nor too long for any
word; the leading place bounds the number from both sides, so this loses nothing. What the argument
needs of a length of words is in `Word`, and that there are two of them does not show elsewhere.
-/

namespace ExtendedJson

/-! ## Toward zero -/

/-- The integer next to a number on the side of zero. -/
def towardZero (q : ℚ) : ℤ := if 0 ≤ q then ⌊q⌋ else ⌈q⌉

theorem towardZero_neg (q : ℚ) : towardZero (-q) = -towardZero q := by
  unfold towardZero
  rcases lt_trichotomy q 0 with hq | rfl | hq
  · rw [if_pos (by linarith), if_neg (by linarith), Int.floor_neg]
  · simp
  · rw [if_neg (by linarith), if_pos hq.le, Int.ceil_neg]

theorem towardZero_intCast (n : ℤ) : towardZero n = n := by
  unfold towardZero
  split
  · exact Int.floor_intCast n
  · exact Int.ceil_intCast n

theorem towardZero_div (m : ℤ) (n : ℕ) : towardZero (m / n) = m.tdiv n := by
  -- both sides change their sign with the dividend
  have hnat (k : ℕ) : towardZero ((k : ℤ) / n) = (k : ℤ).tdiv n := by
    rw [towardZero, if_pos (by positivity), Rat.floor_intCast_div_natCast,
      Int.tdiv_eq_ediv_of_nonneg (Int.natCast_nonneg k)]
  obtain ⟨k, rfl | rfl⟩ := m.eq_nat_or_neg
  · exact hnat k
  · rw [Int.cast_neg, neg_div, towardZero_neg, hnat, Int.neg_tdiv]

theorem towardZero_eq_zero {q : ℚ} (h : |q| < 1) : towardZero q = 0 := by
  rw [abs_lt] at h
  unfold towardZero
  split
  · next hq => exact Int.floor_eq_zero_iff.mpr ⟨hq, h.2⟩
  · exact Int.ceil_eq_zero_iff.mpr ⟨h.1, by linarith⟩

theorem le_natAbs_towardZero {q : ℚ} {n : ℕ} (h : (n : ℚ) ≤ |q|) : n ≤ (towardZero q).natAbs := by
  unfold towardZero
  split
  · next hq =>
      rw [abs_of_nonneg hq] at h
      have : (n : ℤ) ≤ ⌊q⌋ := Int.le_floor.mpr (by exact_mod_cast h)
      omega
  · next hq =>
      rw [abs_of_neg (not_le.mp hq)] at h
      have : ⌈q⌉ ≤ -(n : ℤ) := Int.ceil_le.mpr (by push_cast; linarith)
      omega

/-! ## Doubles and decimals -/

theorem Binary64.truncate_eq_towardZero (x : Binary64) : x.truncate = towardZero x.toRat := by
  have hsigned (n : ℕ) (p : ℚ) (h : (n : ℤ) = towardZero p) :
      x.signed n = towardZero (if x.negative then -p else p) := by
    unfold signed
    split
    · rw [towardZero_neg, h]
    · exact h
  refine hsigned _ _ ?_
  split
  · next hexponent =>
      rw [← cast_size_of_nonneg hexponent]
      exact (towardZero_intCast _).symm
  · next hexponent =>
      have hpower : ((pow2 (-x.exponent).toNat : Nat) : ℚ)⁻¹ = (2 : ℚ) ^ x.exponent := by
        rw [pow2, Nat.pow_eq, Nat.cast_pow, ← zpow_natCast, Int.toNat_of_nonneg (by omega),
          zpow_neg, inv_inv, Nat.cast_ofNat]
      rw [← hpower, ← div_eq_mul_inv]
      exact (towardZero_div x.significand _).symm

namespace Decimal

variable {d : Decimal}

theorem truncate_eq_towardZero (d : Decimal) : d.truncate = towardZero d.toRat := by
  unfold truncate
  split
  · next hscale =>
      have hcast := cast_unscaled_mul_pow10 (d := d) (m := 0) hscale
      rw [zpow_zero, mul_one, Int.zero_sub] at hcast
      rw [← hcast, towardZero_intCast]
  · have hpower : ((pow10 d.scale.toNat : Nat) : ℚ)⁻¹ = (10 : ℚ) ^ (-d.scale) := by
      rw [pow10, Nat.pow_eq, Nat.cast_pow, ← zpow_natCast, Int.toNat_of_nonneg (by omega),
        zpow_neg, Nat.cast_ofNat]
    rw [toRat, ← hpower, ← div_eq_mul_inv]
    exact (towardZero_div d.unscaled _).symm

/-- Counting the digits before the point gives up no integer of so many digits, and finds no other
integer than the one toward zero. -/
theorem integerPart?_eq_some_iff (hd : d.unscaled ≠ 0) {digits : Nat} {n : ℤ}
    (hn : n.natAbs < 10 ^ digits) : d.integerPart? digits = some n ↔ towardZero d.toRat = n := by
  unfold integerPart?
  split
  · next hbelow =>
      have hsmall : |d.toRat| < 1 :=
        (abs_toRat_lt d).trans_le (zpow_le_one_of_nonpos₀ (by norm_num) hbelow)
      rw [towardZero_eq_zero hsmall, Option.some.injEq]
  · split
    · next habove =>
        have hlarge : ((10 ^ digits : ℕ) : ℚ) ≤ |d.toRat| := by
          refine le_trans ?_ (le_abs_toRat hd)
          rw [Nat.cast_pow, ← zpow_natCast]
          exact zpow_le_zpow_right₀ (by norm_num) (by omega)
        have := le_natAbs_towardZero hlarge
        refine iff_of_false nofun ?_
        rintro rfl
        omega
    · rw [Option.some.injEq, truncate_eq_towardZero]

end Decimal

/-! ## Values -/

namespace Value

/-- The number that a numeric value stands for, unless it is a double outside of the numbers. -/
def number? : Value → Option ℚ
  | decimal d => some d.toRat
  | double x => if x.isFinite then some x.toRat else none
  | integer n => some n.toInt
  | long n => some n.toInt
  | _ => none

theorem kind_eq_decimal_iff {v : Value} : v.kind = .decimal ↔ ∃ d, v = .decimal d := by
  cases v <;> simp [kind]

/-- Whether an integer is a signed word of so many bits. -/
def InWord (bits : Nat) (n : ℤ) : Prop := -2 ^ (bits - 1) ≤ n ∧ n < 2 ^ (bits - 1)

instance (bits : Nat) (n : ℤ) : Decidable (InWord bits n) := inferInstanceAs (Decidable (_ ∧ _))

/-- A number is narrowed as it has to be: to the integer toward zero when there is a number and that
integer is a word, and to the complaint that it does not fit when not. -/
structure Narrowed {α : Type} (target : Kind) (bits : Nat) (toInt : α → ℤ) (number? : Option ℚ)
    (r : Except Error α) : Prop where
  fits : ∀ q, number? = some q → InWord bits (towardZero q) →
    ∃ t, r = .ok t ∧ toInt t = towardZero q
  overflows : (∀ q, number? = some q → ¬ InWord bits (towardZero q)) →
    ∃ shown, r = .error (.numericOverflow target.name shown)

theorem narrowed_ok {α : Type} (target : Kind) (bits : Nat) (toInt : α → ℤ) {t : α}
    (hword : InWord bits (toInt t)) : Narrowed target bits toInt (some (toInt t)) (.ok t) where
  fits := by
    rintro _ ⟨⟩ -
    exact ⟨t, rfl, (towardZero_intCast _).symm⟩
  overflows h := absurd (by rwa [towardZero_intCast]) (h _ rfl)

/-- Among the words an integer is found just when it is the one toward zero of a number. -/
def Finds (bits : Nat) (number? : Option ℚ) (n? : Option ℤ) : Prop :=
  ∀ n, InWord bits n → (n? = some n ↔ ∃ q, number? = some q ∧ towardZero q = n)

theorem fit_some (target : Kind) (bits : Nat) (shown : List Char) (n : ℤ) :
    fit target bits shown (some n) = if InWord bits n then .ok n
      else .error (.numericOverflow target.name (String.ofList shown)) := by
  have hpower : ((pow2 (bits - 1) : Nat) : ℤ) = 2 ^ (bits - 1) := by
    rw [pow2, Nat.pow_eq, Nat.cast_pow, Nat.cast_ofNat]
  rw [fit, hpower]
  rfl

theorem finds_toInt (bits : Nat) (m : ℤ) : Finds bits (some (m : ℚ)) (some m) := by
  intro n _
  simp [towardZero_intCast]

theorem finds_truncateDouble? (bits : Nat) (x : Binary64) :
    Finds bits (number? (.double x)) (truncateDouble? x) := by
  intro n _
  rw [number?, truncateDouble?, x.truncate_eq_towardZero]
  cases x.isFinite <;> simp

theorem finds_integerPart? {d : Decimal} (hd : d.unscaled ≠ 0) {bits digits : Nat}
    (hdigits : 2 ^ (bits - 1) < 10 ^ digits) :
    Finds bits (number? (.decimal d)) (d.integerPart? digits) := by
  intro n hword
  have hn : n.natAbs < 10 ^ digits := by
    refine lt_of_le_of_lt ?_ hdigits
    zify
    rw [abs_le]
    exact ⟨hword.1, hword.2.le⟩
  rw [d.integerPart?_eq_some_iff hd hn]
  simp [number?]

/-! ## Words -/

/-- Words of one length: how long they are, how many digits that is at most, and what integers they
stand for. -/
structure Word (α : Type) where
  target : Kind
  bits : ℕ
  digits : ℕ
  toInt : α → ℤ
  ofInt : ℤ → α
  toInt_ofInt : ∀ n, InWord bits n → toInt (ofInt n) = n
  toInt_injective : Function.Injective toInt
  enough : 2 ^ (bits - 1) < 10 ^ digits

def word32 : Word Int32 where
  target := .integer
  bits := 32
  digits := 10
  toInt := Int32.toInt
  ofInt := Int32.ofInt
  toInt_ofInt _ h := Int32.toInt_ofInt_of_le h.1 h.2
  toInt_injective _ _ := Int32.toInt_inj.mp
  enough := by norm_num

def word64 : Word Int64 where
  target := .long
  bits := 64
  digits := 19
  toInt := Int64.toInt
  ofInt := Int64.ofInt
  toInt_ofInt _ h := Int64.toInt_ofInt_of_le h.1 h.2
  toInt_injective _ _ := Int64.toInt_inj.mp
  enough := by norm_num

namespace Word

variable {α : Type} (w : Word α)

def ofDecimal (d : Decimal) : Except Error α :=
  (fit w.target w.bits d.display (d.integerPart? w.digits)).map w.ofInt

/-- An answer that is right for a number. -/
def Right (q? : Option ℚ) (r : Except Error α) : Prop := Narrowed w.target w.bits w.toInt q? r

variable {w}

/-- What finds the integer toward zero among the words narrows to it when it is one. -/
theorem right_of_finds {q? : Option ℚ} {n? : Option ℤ} (h : Finds w.bits q? n?)
    (shown : List Char) : w.Right q? ((fit w.target w.bits shown n?).map w.ofInt) := by
  refine Narrowed.mk (fun q hq hword => ?_) fun hnone => ?_
  · rw [(h _ hword).mpr ⟨q, hq, rfl⟩, fit_some, if_pos hword]
    exact ⟨_, rfl, w.toInt_ofInt _ hword⟩
  · cases n? with
    | none => exact ⟨_, rfl⟩
    | some n =>
        rw [fit_some]
        split
        · next hword =>
            obtain ⟨q, hq, htoward⟩ := (h n hword).mp rfl
            exact absurd (htoward ▸ hword) (hnone q hq)
        · exact ⟨_, rfl⟩

theorem right_ofDecimal_of_ne_zero {d : Decimal} (hd : d.unscaled ≠ 0) :
    w.Right (some d.toRat) (w.ofDecimal d) :=
  right_of_finds (finds_integerPart? hd w.enough) d.display

end Word

theorem right_of_not_decimal {v : Value} (hnumeric : v.kind.isNumeric = true)
    (hdecimal : v.kind ≠ .decimal) :
    word32.Right v.number? v.getInteger ∧ word64.Right v.number? v.getLong := by
  cases v with
  | integer n =>
      have hwide := narrowed_ok .long 64 Int64.toInt ⟨n.toInt64.le_toInt, n.toInt64.toInt_lt⟩
      rw [n.toInt_toInt64] at hwide
      exact ⟨narrowed_ok .integer 32 Int32.toInt ⟨n.le_toInt, n.toInt_lt⟩, hwide⟩
  | long n =>
      exact ⟨word32.right_of_finds (finds_toInt 32 n.toInt) _,
        narrowed_ok .long 64 Int64.toInt ⟨n.le_toInt, n.toInt_lt⟩⟩
  | double x =>
      exact ⟨word32.right_of_finds (finds_truncateDouble? 32 x) _,
        word64.right_of_finds (finds_truncateDouble? 64 x) _⟩
  | decimal d => exact absurd rfl hdecimal
  | _ => simp [kind, Kind.isNumeric] at hnumeric

/-- Every number but a zero decimal is narrowed to the integer toward zero, in words of 32 and of 64
bits. -/
theorem narrowed_toward_zero {v : Value} (hnumeric : v.kind.isNumeric = true)
    (hzero : ∀ d, v = .decimal d → d.unscaled ≠ 0) :
    Narrowed .integer 32 Int32.toInt v.number? v.getInteger ∧
      Narrowed .long 64 Int64.toInt v.number? v.getLong := by
  by_cases hdecimal : v.kind = .decimal
  · obtain ⟨d, rfl⟩ := kind_eq_decimal_iff.mp hdecimal
    exact ⟨word32.right_ofDecimal_of_ne_zero (hzero d rfl),
      word64.right_ofDecimal_of_ne_zero (hzero d rfl)⟩
  · exact right_of_not_decimal hnumeric hdecimal

/-- Below the least word of 32 bits there is room for nine tenths, and not for one. -/
theorem narrowed_toward_zero_below_least :
    let within : Value := .decimal ⟨-21474836489, 1⟩
    let beyond : Value := .decimal ⟨-21474836490, 1⟩
    (within.kind.isNumeric = true ∧ ∀ d, within = .decimal d → d.unscaled ≠ 0) ∧
    (beyond.kind.isNumeric = true ∧ ∀ d, beyond = .decimal d → d.unscaled ≠ 0) ∧
    (∃ t, within.getInteger = .ok t ∧ t.toInt = -2147483648) ∧
    ∃ shown, beyond.getInteger = .error (.numericOverflow "INTEGER" shown) := by
  intro within beyond
  have hnonzero {n : ℤ} (hn : n ≠ 0) (d : Decimal) (hd : Value.decimal ⟨n, 1⟩ = .decimal d) :
      d.unscaled ≠ 0 := by
    cases hd
    exact hn
  have hwithin := (narrowed_toward_zero (v := within) rfl (hnonzero (by decide))).1
  have hbeyond := (narrowed_toward_zero (v := beyond) rfl (hnonzero (by decide))).1
  refine ⟨⟨rfl, hnonzero (by decide)⟩, ⟨rfl, hnonzero (by decide)⟩, ?_, hbeyond.overflows ?_⟩
  · obtain ⟨t, ht, htoward⟩ := hwithin.fits _ rfl (by
      rw [← Decimal.truncate_eq_towardZero]
      decide)
    rw [← Decimal.truncate_eq_towardZero] at htoward
    exact ⟨t, ht, htoward⟩
  · rintro _ ⟨⟩
    rw [← Decimal.truncate_eq_towardZero]
    decide

end Value

end ExtendedJson
