import ExtendedJson.Proofs.DecimalOrder
import ExtendedJson.Proofs.WordProducts

/-!
# Equal numbers that are not taken for one

Two decimals that stand for the same number have the same sign, and the digits of the one with the
longer fraction are those of the other followed by zeros. `same` finds that out for all of them but
those whose points are ten places apart and whose product with `10 ^ 10` loses a carry. This is the
one place where equality is opened: what is settled, written out or made an integer elsewhere is the
same number again, and equals it by what is said here.
-/

namespace ExtendedJson.Decimal

/-- The numbers that are not taken for the number that their digits spell out. -/
def Mistaken (d : Decimal) : Prop :=
  d.scale = -10 ∧ ∃ i, word d.unscaled.natAbs i = 1844674407 ∧
    3709551616 * 2 ^ (32 * i) ≤ d.unscaled.natAbs % 2 ^ (32 * i) * 10 ^ 10 ∧
    ∀ j ≤ i + 2, word d.unscaled.natAbs j ≤ 1844674407

/-- The points of two numbers are ten places apart, and a carry is lost when ten zeros are appended
to the digits of the one with the shorter fraction. -/
def Parted (a b : Decimal) : Prop :=
  a.scale = b.scale + 10 ∧ Mistaken ⟨b.unscaled, -10⟩ ∨
    b.scale = a.scale + 10 ∧ Mistaken ⟨a.unscaled, -10⟩

variable {a b : Decimal}

theorem losesCarry_iff_mistaken {places : Nat} (hplaces : places < 20) (n : Int) :
    LosesCarry (10 ^ places) 0 n.natAbs ↔ places = 10 ∧ Mistaken ⟨n, -10⟩ := by
  rw [losesCarry_pow10_iff hplaces, Mistaken]
  simp

theorem unscaled_ne_zero_of_mistaken {n : Int} (h : Mistaken ⟨n, -10⟩) : n ≠ 0 := by
  obtain ⟨-, i, hword, -, -⟩ := h
  rintro rfl
  rw [word, Int.natAbs_zero, Nat.zero_div, Nat.zero_mod] at hword
  omega

theorem compare_eq_of_toRat (h : a.toRat = b.toRat) : (a.compare b == .eq) = true := by
  rw [compare_eq_cmp, h, cmp_self_eq_eq]
  rfl

theorem sign_eq_of_toRat_eq (h : a.toRat = b.toRat) : a.unscaled.sign = b.unscaled.sign := by
  rcases lt_trichotomy a.unscaled.sign b.unscaled.sign with hlt | heq | hlt
  · exact absurd h (toRat_lt_of_sign_lt hlt).ne
  · exact heq
  · exact absurd h (toRat_lt_of_sign_lt hlt).ne'

/-- The digits with the longer fraction are the others followed by zeros. -/
theorem unscaled_eq_mul_pow10 (h : a.toRat = b.toRat) (hscale : b.scale ≤ a.scale) :
    a.unscaled = b.unscaled * pow10 (a.scale - b.scale).toNat := by
  have hlong := cast_unscaled_mul_pow10 (d := a) (m := a.scale) (Int.le_refl _)
  have hshort := cast_unscaled_mul_pow10 (d := b) (m := a.scale) hscale
  rw [h, ← hshort, Int.sub_self, show pow10 (0 : Int).toNat = 1 from rfl] at hlong
  have hexact : a.unscaled * (1 : Nat) = b.unscaled * pow10 (a.scale - b.scale).toNat := by
    exact_mod_cast hlong
  rwa [Int.natCast_one, Int.mul_one] at hexact

theorem isPadded_iff_of_toRat_eq (h : a.toRat = b.toRat) (hscale : b.scale < a.scale)
    (hfew : (a.scale - b.scale).natAbs < 20) (hb : b.unscaled ≠ 0) :
    isPadded (a.scale - b.scale).natAbs a.unscaled.natAbs b.unscaled.natAbs = true ↔
      ¬ (a.scale = b.scale + 10 ∧ Mistaken ⟨b.unscaled, -10⟩) := by
  have hpadded : a.unscaled.natAbs = b.unscaled.natAbs * pow10 (a.scale - b.scale).natAbs := by
    rw [unscaled_eq_mul_pow10 h hscale.le, Int.natAbs_mul, Int.natAbs_natCast,
      show (a.scale - b.scale).toNat = (a.scale - b.scale).natAbs by omega]
  have hten : (a.scale - b.scale).natAbs = 10 ↔ a.scale = b.scale + 10 := by omega
  rw [hpadded, ← Bool.not_eq_false, isPadded_eq_false_iff hfew (Int.natAbs_ne_zero.mpr hb),
    losesCarry_iff_mistaken hfew, hten]

/-- Decimals that stand for the same number are taken for one, unless a carry parts them. -/
theorem same_iff_of_toRat_eq (h : a.toRat = b.toRat) : a.same b = true ↔ ¬ Parted a b := by
  have hsign := sign_eq_of_toRat_eq h
  have hzero : a.unscaled = 0 ↔ b.unscaled = 0 := by
    rw [← Int.sign_eq_zero_iff_zero, hsign, Int.sign_eq_zero_iff_zero]
  have hswap : (a.scale - b.scale).natAbs = (b.scale - a.scale).natAbs := by omega
  rw [same]
  simp only [hsign, true_and]
  by_cases hguard : a.unscaled ≠ 0 ∧ 0 < (a.scale - b.scale).natAbs ∧
      (a.scale - b.scale).natAbs < 20
  · rw [if_pos hguard]
    obtain ⟨hne, hpositive, hfew⟩ := hguard
    split
    · next hscale =>
        rw [isPadded_iff_of_toRat_eq h hscale hfew (hzero.not.mp hne), Parted,
          or_iff_left (by omega)]
    · rw [hswap, isPadded_iff_of_toRat_eq h.symm (by omega) (by omega) hne, Parted,
        or_iff_right (by omega)]
  -- at one place, or with more zeros than a word holds, the values are compared
  · rw [if_neg hguard]
    refine iff_of_true (compare_eq_of_toRat h) ?_
    rintro (⟨hten, hlost⟩ | ⟨hten, hlost⟩)
    · exact hguard ⟨hzero.not.mpr (unscaled_ne_zero_of_mistaken hlost), by omega, by omega⟩
    · exact hguard ⟨unscaled_ne_zero_of_mistaken hlost, by omega, by omega⟩

end ExtendedJson.Decimal
