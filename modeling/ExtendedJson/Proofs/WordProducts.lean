import Mathlib.Tactic.IntervalCases
import Mathlib.Tactic.Ring
import ExtendedJson.Decimal.Equality

/-!
# Where a carry is lost

The product that `isWordProduct?` compares word by word goes wrong only where a carry does not fit
on top of its product in 64 bits. The low word of the sum is right all the same. What is lost is one
unit of the word after the next, so that the comparison goes on for two more words and fails at the
third, unless by then a word's product does not fit and the whole product is built after all.

For powers of ten that is narrowed down to numbers: the carry stays below `2 ^ 32`, and `10 ^ 10` is
the only power below `2 ^ 64` that leaves a remainder of `2 ^ 64` so small.
-/

namespace ExtendedJson.Decimal

/-! ## One word -/

/-- A word of a natural number, the lowest being the first. -/
def word (n i : Nat) : Nat := n / 2 ^ (32 * i) % 2 ^ 32

theorem word_zero (n : Nat) : word n 0 = n % 2 ^ 32 := by
  rw [word, Nat.mul_zero, Nat.pow_zero, Nat.div_one]

theorem word_succ (n i : Nat) : word n (i + 1) = word (n / 2 ^ 32) i := by
  rw [word, word, Nat.div_div_eq_div_mul, ← Nat.pow_add, Nat.mul_add, Nat.mul_one, Nat.add_comm]

theorem words_cons {n : Nat} (h : n ≠ 0) : words n = n.toUInt32 :: words (n / 2 ^ 32) := by
  rw [words, dif_neg h]
  rfl

theorem words_zero : words 0 = [] := by
  rw [words, dif_pos rfl]

variable {factor : UInt64} {carry padded n : Nat}

theorem toNat_sum (factor : UInt64) (n : Nat) (carry : Nat) :
    (factor * n.toUInt32.toUInt64 + .ofNat carry).toNat =
      (factor.toNat * (n % 2 ^ 32) + carry) % 2 ^ 64 := by
  have hword : n.toUInt32.toUInt64.toNat = n % 2 ^ 32 := by
    rw [UInt32.toNat_toUInt64]
    rfl
  rw [UInt64.toNat_add, UInt64.toNat_mul, hword, UInt64.toNat_ofNat']
  omega

theorem isWordProduct?_step (hpadded : padded ≠ 0) (hn : n ≠ 0) :
    isWordProduct? factor (.ofNat carry) (words padded) (words n) =
      if factor.toNat * (n % 2 ^ 32) < 2 ^ 64 then
        if padded % 2 ^ 32 = (factor.toNat * (n % 2 ^ 32) + carry) % 2 ^ 32 then
          isWordProduct? factor
            (.ofNat ((factor.toNat * (n % 2 ^ 32) + carry) % 2 ^ 64 / 2 ^ 32))
            (words (padded / 2 ^ 32)) (words (n / 2 ^ 32))
        else some false
      else none := by
  have hsum := toNat_sum factor n carry
  have hlow : padded.toUInt32 = (factor * n.toUInt32.toUInt64 + .ofNat carry).toUInt32 ↔
      padded % 2 ^ 32 = (factor.toNat * (n % 2 ^ 32) + carry) % 2 ^ 32 := by
    rw [← UInt32.toNat_inj, UInt64.toNat_toUInt32, hsum, Nat.mod_mod_of_dvd _ (by decide)]
    rfl
  have hshift : (factor * n.toUInt32.toUInt64 + .ofNat carry) >>> 32 =
      .ofNat ((factor.toNat * (n % 2 ^ 32) + carry) % 2 ^ 64 / 2 ^ 32) := by
    rw [← UInt64.toNat_inj, UInt64.toNat_shiftRight, hsum, UInt64.toNat_ofNat',
      Nat.shiftRight_eq_div_pow, show (32 : UInt64).toNat % 64 = 32 from rfl]
    omega
  have hfits : factor.toNat * n.toUInt32.toNat < UInt64.size ↔
      factor.toNat * (n % 2 ^ 32) < 2 ^ 64 := Iff.rfl
  rw [words_cons hpadded, words_cons hn, isWordProduct?, wordProduct?]
  simp only [hfits]
  by_cases h : factor.toNat * (n % 2 ^ 32) < 2 ^ 64
  · simp only [h, if_true, hlow, hshift]
  · simp only [h, if_false]

theorem isWordProduct?_zero_left (factor : UInt64) (padded : Nat) :
    isWordProduct? factor 0 (words padded) [] = some (decide (padded = 0)) := by
  induction padded using Nat.strongRecOn with
  | ind padded ih =>
      by_cases h : padded = 0
      · rw [h, words_zero]
        rfl
      · have hlow : padded.toUInt32 = (0 : UInt64).toUInt32 ↔ padded % 2 ^ 32 = 0 := by
          rw [← UInt32.toNat_inj]
          rfl
        rw [words_cons h, isWordProduct?, ih (padded / 2 ^ 32) (by omega)]
        simp only [hlow]
        split
        · next hzero =>
            congr 2
            rw [eq_iff_iff]
            omega
        · simp [h]

theorem isWordProduct?_end (factor : UInt64) (hcarry : carry < 2 ^ 64) (hpadded : padded ≠ 0) :
    isWordProduct? factor (.ofNat carry) (words padded) (words 0) =
      some (decide (padded % 2 ^ 32 = carry % 2 ^ 32 ∧ padded / 2 ^ 32 = 0)) := by
  have hlow : padded.toUInt32 = (UInt64.ofNat carry).toUInt32 ↔
      padded % 2 ^ 32 = carry % 2 ^ 32 := by
    rw [← UInt32.toNat_inj, UInt64.toNat_toUInt32, UInt64.toNat_ofNat', Nat.mod_eq_of_lt hcarry]
    rfl
  rw [words_zero, words_cons hpadded, isWordProduct?, isWordProduct?_zero_left]
  by_cases h : padded % 2 ^ 32 = carry % 2 ^ 32
  · rw [if_pos (hlow.mpr h)]
    simp only [h, true_and]
  · rw [if_neg (mt hlow.mp h)]
    simp only [h, false_and, decide_false]

/-! ## A lost carry -/

theorem mul_eq_low_add_high (n factor : Nat) :
    n * factor = factor * (n % 2 ^ 32) + 2 ^ 32 * (n / 2 ^ 32 * factor) := by
  have h := Nat.div_add_mod n (2 ^ 32)
  calc n * factor = (2 ^ 32 * (n / 2 ^ 32) + n % 2 ^ 32) * factor := by rw [h]
    _ = factor * (n % 2 ^ 32) + 2 ^ 32 * (n / 2 ^ 32 * factor) := by ring

theorem isWordProduct?_missing {t : Nat} (hcarry : carry < 2 ^ 32) (ht : t % 2 ^ 32 = carry) :
    isWordProduct? factor (.ofNat carry) (words (n * factor.toNat + t + 1)) (words n) =
      if factor.toNat * word n 0 < 2 ^ 64 then some false else none := by
  rw [word_zero]
  by_cases hn : n = 0
  · subst hn
    rw [isWordProduct?_end factor (by omega) (by omega), if_pos (by simp), Nat.zero_mul,
      decide_eq_false (by omega)]
  · rw [isWordProduct?_step (by omega) hn, mul_eq_low_add_high n]
    by_cases hfits : factor.toNat * (n % 2 ^ 32) < 2 ^ 64
    · rw [if_pos hfits, if_pos hfits, if_neg (by omega)]
    · rw [if_neg hfits, if_neg hfits]

/-- A carry that has lost `2 ^ 32` passes one word and is missing a unit behind it. -/
theorem isWordProduct?_lost (hcarry : carry < 2 ^ 32) :
    isWordProduct? factor (.ofNat carry) (words (n * factor.toNat + carry + 2 ^ 32)) (words n) =
      if factor.toNat * word n 0 < 2 ^ 64 ∧ factor.toNat * word n 1 < 2 ^ 64 then some false
      else none := by
  rw [word_succ n 0, word_zero n]
  by_cases hn : n = 0
  · subst hn
    rw [isWordProduct?_end factor (by omega) (by omega), if_pos (by simp [word]), Nat.zero_mul,
      decide_eq_false (by omega)]
  · rw [isWordProduct?_step (by omega) hn]
    by_cases hfits : factor.toNat * (n % 2 ^ 32) < 2 ^ 64
    · have hsplit := mul_eq_low_add_high n factor.toNat
      have hrest : (n * factor.toNat + carry + 2 ^ 32) / 2 ^ 32 =
          n / 2 ^ 32 * factor.toNat + (factor.toNat * (n % 2 ^ 32) + carry) / 2 ^ 32 + 1 := by
        omega
      rw [if_pos hfits, if_pos (by omega), hrest, isWordProduct?_missing (by omega) (by omega)]
      simp only [hfits, true_and]
    · rw [if_neg hfits, if_neg (fun h => hfits h.1)]

/-- What the words below one leave over for it. -/
def carryInto (factor carry n i : Nat) : Nat := (n % 2 ^ (32 * i) * factor + carry) / 2 ^ (32 * i)

/-- Somewhere a carry does not fit on top of its product, and up to the second word behind it each
product by itself fits. -/
def LosesCarry (factor carry n : Nat) : Prop :=
  ∃ i, 2 ^ 64 ≤ factor * word n i + carryInto factor carry n i ∧
    ∀ j ≤ i + 2, factor * word n j < 2 ^ 64

theorem carryInto_zero (factor carry n : Nat) : carryInto factor carry n 0 = carry := by
  simp [carryInto, Nat.mod_one]

theorem carryInto_succ (factor carry n i : Nat) :
    carryInto factor carry n (i + 1) =
      carryInto factor ((factor * (n % 2 ^ 32) + carry) / 2 ^ 32) (n / 2 ^ 32) i := by
  have hpow : 2 ^ (32 * (i + 1)) = 2 ^ 32 * 2 ^ (32 * i) := by
    rw [← Nat.pow_add, Nat.mul_add, Nat.mul_one, Nat.add_comm]
  have hmod : n % 2 ^ (32 * (i + 1)) = n % 2 ^ 32 + 2 ^ 32 * (n / 2 ^ 32 % 2 ^ (32 * i)) := by
    rw [hpow, Nat.mod_mul]
  have hring : (n % 2 ^ 32 + 2 ^ 32 * (n / 2 ^ 32 % 2 ^ (32 * i))) * factor + carry =
      factor * (n % 2 ^ 32) + carry + 2 ^ 32 * (n / 2 ^ 32 % 2 ^ (32 * i) * factor) := by
    ring
  rw [carryInto, carryInto, hmod, hring, hpow, ← Nat.div_div_eq_div_mul,
    Nat.add_mul_div_left _ _ (by decide), Nat.add_comm]

theorem losesCarry_iff_of_fits {factor : Nat} (hfits : factor * (n % 2 ^ 32) + carry < 2 ^ 64) :
    LosesCarry factor carry n ↔
      LosesCarry factor ((factor * (n % 2 ^ 32) + carry) / 2 ^ 32) (n / 2 ^ 32) := by
  unfold LosesCarry
  simp only [← word_succ, ← carryInto_succ]
  constructor
  · intro h
    obtain ⟨i, hlost, hwords⟩ := h
    cases i with
    | zero =>
        rw [word_zero, carryInto_zero] at hlost
        exact absurd hfits (Nat.not_lt.mpr hlost)
    | succ i => exact ⟨i, hlost, fun j hj => hwords (j + 1) (by omega)⟩
  · intro h
    obtain ⟨i, hlost, hwords⟩ := h
    refine ⟨i + 1, hlost, fun j hj => ?_⟩
    cases j with
    | zero =>
        rw [word_zero]
        exact Nat.lt_of_le_of_lt (Nat.le_add_right _ _) hfits
    | succ j => exact hwords j (by omega)

theorem not_losesCarry_zero {factor : Nat} (hcarry : carry < 2 ^ 32) :
    ¬ LosesCarry factor carry 0 := by
  intro h
  obtain ⟨i, hlost, -⟩ := h
  have hle : carryInto factor carry 0 i ≤ carry := by
    rw [carryInto, Nat.zero_mod, Nat.zero_mul, Nat.zero_add]
    exact Nat.div_le_self _ _
  rw [word, Nat.zero_div, Nat.zero_mod, Nat.mul_zero] at hlost
  omega

/-- A sum that does not fit loses its carry for good, unless a product behind it does not fit. -/
theorem losesCarry_iff_of_overflow {factor : Nat}
    (hover : 2 ^ 64 ≤ factor * (n % 2 ^ 32) + carry) (hfits : factor * (n % 2 ^ 32) < 2 ^ 64) :
    LosesCarry factor carry n ↔
      factor * word (n / 2 ^ 32) 0 < 2 ^ 64 ∧ factor * word (n / 2 ^ 32) 1 < 2 ^ 64 := by
  rw [← word_succ, ← word_succ]
  constructor
  · intro h
    obtain ⟨i, -, hwords⟩ := h
    exact ⟨hwords 1 (by omega), hwords 2 (by omega)⟩
  · intro h
    obtain ⟨hfirst, hsecond⟩ := h
    refine ⟨0, by rwa [word_zero, carryInto_zero], fun j hj => ?_⟩
    match j, hj with
    | 0, _ => rwa [word_zero]
    | 1, _ => exact hfirst
    | 2, _ => exact hsecond

/-- The comparison of the true product fails just when a carry is lost. -/
theorem isWordProduct?_eq_false_iff (factor : UInt64) (hfactor : 0 < factor.toNat) (n : Nat) :
    ∀ carry < 2 ^ 32,
      (isWordProduct? factor (.ofNat carry) (words (n * factor.toNat + carry)) (words n) =
        some false ↔ LosesCarry factor.toNat carry n) := by
  induction n using Nat.strongRecOn with
  | ind n ih =>
      intro carry hcarry
      by_cases hn : n = 0
      · subst hn
        refine iff_of_false ?_ (not_losesCarry_zero hcarry)
        rw [Nat.zero_mul, Nat.zero_add]
        by_cases hzero : carry = 0
        · subst hzero
          rw [words_zero, isWordProduct?]
          decide
        · rw [isWordProduct?_end factor (by omega) hzero, decide_eq_true ⟨rfl, by omega⟩]
          decide
      · have hpadded : n * factor.toNat ≠ 0 := Nat.mul_ne_zero hn (by omega)
        have hsplit := mul_eq_low_add_high n factor.toNat
        rw [isWordProduct?_step (by omega) hn]
        by_cases hfits : factor.toNat * (n % 2 ^ 32) < 2 ^ 64
        · rw [if_pos hfits, if_pos (by omega)]
          by_cases hover : 2 ^ 64 ≤ factor.toNat * (n % 2 ^ 32) + carry
          · have hrest : (n * factor.toNat + carry) / 2 ^ 32 = n / 2 ^ 32 * factor.toNat +
                (factor.toNat * (n % 2 ^ 32) + carry) % 2 ^ 64 / 2 ^ 32 + 2 ^ 32 := by
              omega
            rw [hrest, isWordProduct?_lost (by omega), losesCarry_iff_of_overflow hover hfits]
            by_cases hboth : factor.toNat * word (n / 2 ^ 32) 0 < 2 ^ 64 ∧
                factor.toNat * word (n / 2 ^ 32) 1 < 2 ^ 64
            · rw [if_pos hboth]
              exact iff_of_true rfl hboth
            · rw [if_neg hboth]
              exact iff_of_false nofun hboth
          · have hrest : (n * factor.toNat + carry) / 2 ^ 32 = n / 2 ^ 32 * factor.toNat +
                (factor.toNat * (n % 2 ^ 32) + carry) / 2 ^ 32 := by
              omega
            rw [hrest, Nat.mod_eq_of_lt (by omega), losesCarry_iff_of_fits (by omega)]
            exact ih (n / 2 ^ 32) (by omega) _ (by omega)
        · rw [if_neg hfits]
          refine iff_of_false nofun ?_
          intro h
          obtain ⟨i, -, hwords⟩ := h
          have := hwords 0 (by omega)
          rw [word_zero] at this
          exact hfits this

/-! ## Powers of ten -/

theorem carryInto_step (factor carry n i : Nat) :
    carryInto factor carry n (i + 1) =
      (factor * word n i + carryInto factor carry n i) / 2 ^ 32 := by
  have hpow : 2 ^ (32 * (i + 1)) = 2 ^ (32 * i) * 2 ^ 32 := by
    rw [← Nat.pow_add, Nat.mul_add, Nat.mul_one]
  have hmod : n % 2 ^ (32 * (i + 1)) = n % 2 ^ (32 * i) + 2 ^ (32 * i) * word n i := by
    rw [hpow, Nat.mod_mul, word]
  have hring : (n % 2 ^ (32 * i) + 2 ^ (32 * i) * word n i) * factor + carry =
      n % 2 ^ (32 * i) * factor + carry + 2 ^ (32 * i) * (factor * word n i) := by
    ring
  rw [carryInto, carryInto, hmod, hring, hpow, ← Nat.div_div_eq_div_mul,
    Nat.add_mul_div_left _ _ (Nat.two_pow_pos _), Nat.add_comm]

/-- The first carry that is lost is one of less than `2 ^ 32`. -/
theorem LosesCarry.exists_first {factor n : Nat} (h : LosesCarry factor 0 n) :
    ∃ i, 2 ^ 64 ≤ factor * word n i + carryInto factor 0 n i ∧ carryInto factor 0 n i < 2 ^ 32 ∧
      ∀ j ≤ i + 2, factor * word n j < 2 ^ 64 := by
  obtain ⟨i, hlost, hwords⟩ := h
  have hex : ∃ i, 2 ^ 64 ≤ factor * word n i + carryInto factor 0 n i := ⟨i, hlost⟩
  have hfirst : Nat.find hex ≤ i := Nat.find_min' hex hlost
  refine ⟨Nat.find hex, Nat.find_spec hex, ?_, fun j hj => hwords j (by omega)⟩
  cases hindex : Nat.find hex with
  | zero =>
      rw [carryInto_zero]
      decide
  | succ before =>
      have hbefore := Nat.find_min hex (m := before) (by omega)
      rw [carryInto_step]
      omega

/-- Among the powers of ten only the tenth can lose a carry, behind a word of 1844674407. -/
theorem losesCarry_pow10_iff {places : Nat} (hplaces : places < 20) (n : Nat) :
    LosesCarry (10 ^ places) 0 n ↔ places = 10 ∧ ∃ i, word n i = 1844674407 ∧
      3709551616 * 2 ^ (32 * i) ≤ n % 2 ^ (32 * i) * 10 ^ 10 ∧
      ∀ j ≤ i + 2, word n j ≤ 1844674407 := by
  constructor
  · intro h
    obtain ⟨i, hlost, hcarry, hwords⟩ := h.exists_first
    have hword : word n i < 2 ^ 32 := Nat.mod_lt _ (by decide)
    have hfits := hwords i (by omega)
    obtain rfl : places = 10 := by
      interval_cases places <;> omega
    have hvalue : word n i = 1844674407 := by omega
    refine ⟨rfl, i, hvalue, ?_, fun j hj => by have := hwords j hj; omega⟩
    rw [← Nat.le_div_iff_mul_le (Nat.two_pow_pos _)]
    rw [hvalue, carryInto, Nat.add_zero] at hlost
    omega
  · intro h
    obtain ⟨rfl, i, hvalue, hcarry, hwords⟩ := h
    rw [← Nat.le_div_iff_mul_le (Nat.two_pow_pos _)] at hcarry
    refine ⟨i, ?_, fun j hj => by have := hwords j hj; omega⟩
    rw [hvalue, carryInto, Nat.add_zero]
    omega

/-! ## Equality -/

theorem log2_add_le {m n : Nat} (hm : m ≠ 0) (hn : n ≠ 0) : n.log2 + m.log2 ≤ (n * m).log2 := by
  rw [Nat.le_log2 (Nat.mul_ne_zero hn hm), Nat.pow_add]
  exact Nat.mul_le_mul (Nat.log2_self_le hn) (Nat.log2_self_le hm)

theorem isPadded_eq_false_iff {places n : Nat} (hplaces : places < 20) (hn : n ≠ 0) :
    isPadded places (n * pow10 places) n = false ↔ LosesCarry (10 ^ places) 0 n := by
  have hpow : pow10 places = 10 ^ places := rfl
  have hpositive : 0 < 10 ^ places := Nat.pow_pos (by decide)
  have hbound : 10 ^ places < 2 ^ 64 :=
    Nat.lt_of_le_of_lt (Nat.pow_le_pow_right (by decide) (Nat.le_of_lt_succ hplaces)) (by decide)
  have hfactor : (10 ^ places).toUInt64.toNat = 10 ^ places := by
    rw [Nat.toUInt64, UInt64.toNat_ofNat', Nat.mod_eq_of_lt hbound]
  have hproduct := isWordProduct?_eq_false_iff (10 ^ places).toUInt64 (by omega) n 0
    (by decide)
  rw [hfactor, Nat.add_zero] at hproduct
  have hlog := log2_add_le (by omega : 10 ^ places ≠ 0) hn
  rw [isPadded, hpow, if_neg (by omega), ← hproduct]
  change (isWordProduct? _ (.ofNat 0) _ _).getD _ = false ↔ _
  cases isWordProduct? (10 ^ places).toUInt64 (.ofNat 0) (words (n * 10 ^ places)) (words n) with
  | none => simp
  | some verdict => simp

end ExtendedJson.Decimal
