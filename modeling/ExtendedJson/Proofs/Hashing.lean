import ExtendedJson.Value.Hash
import ExtendedJson.Proofs.ValueOrder

/-!
# Equal values are hashed alike

A value is compared by its flat key and then by its items, and it is hashed in that order too. What
goes into a hash of a flat key is determined by what the key is compared by: most payloads are equal
when they compare equal, objects are hashed by the text that they are compared by, and equal numbers
have one reduced decimal.
-/

namespace ExtendedJson

namespace Decimal

/-! ## Reduced decimals -/

/-- A decimal without zeros that could be dropped. -/
def Reduced (d : Decimal) : Prop := if d.unscaled = 0 then d.scale = 0 else ¬ 10 ∣ d.unscaled

theorem stripZeros_mul_pow (n : Nat) : (stripZeros n).1 * 10 ^ (stripZeros n).2 = n := by
  induction n using Nat.strongRecOn with
  | ind n ih =>
      rw [stripZeros]
      split
      · next h =>
          have hrest := ih (n / 10) (by omega)
          simp only
          rw [pow_succ, ← mul_assoc, hrest]
          omega
      · exact mul_one n

theorem stripZeros_mod_ten {n : Nat} (hn : n ≠ 0) : (stripZeros n).1 % 10 ≠ 0 := by
  induction n using Nat.strongRecOn with
  | ind n ih =>
      rw [stripZeros]
      split
      · exact ih (n / 10) (by omega) (by omega)
      · next h => exact fun hmod => h ⟨hn, hmod⟩

theorem toRat_normalize (d : Decimal) : d.normalize.toRat = d.toRat := by
  unfold normalize
  split
  · next hzero => rw [toRat_eq_zero hzero, toRat_eq_zero rfl]
  · have hdigits : (d.unscaled : ℚ) = d.unscaled.sign * (stripZeros d.unscaled.natAbs).1 *
        (10 : ℚ) ^ (stripZeros d.unscaled.natAbs).2 := by
      have hproduct : d.unscaled = d.unscaled.sign *
          ((stripZeros d.unscaled.natAbs).1 * 10 ^ (stripZeros d.unscaled.natAbs).2 : Nat) := by
        rw [stripZeros_mul_pow, Int.sign_mul_natAbs]
      conv_lhs => rw [hproduct]
      push_cast
      ring
    simp only [toRat]
    rw [hdigits, show -(d.scale - ((stripZeros d.unscaled.natAbs).2 : Int)) =
      ((stripZeros d.unscaled.natAbs).2 : Int) + -d.scale by omega, zpow_add₀ (by norm_num),
      zpow_natCast]
    push_cast
    ring

theorem reduced_normalize (d : Decimal) : d.normalize.Reduced := by
  unfold normalize
  split
  · exact rfl
  · next hne =>
      have hmod := stripZeros_mod_ten (Int.natAbs_ne_zero.mpr hne)
      have habs : (d.unscaled.sign * ((stripZeros d.unscaled.natAbs).1 : Int)).natAbs =
          (stripZeros d.unscaled.natAbs).1 := by
        rw [Int.natAbs_mul, Int.natAbs_sign_of_ne_zero hne, one_mul, Int.natAbs_natCast]
      unfold Reduced
      simp only
      rw [if_neg (by omega)]
      omega

/-- A number has one reduced decimal. -/
theorem Reduced.eq {a b : Decimal} (ha : a.Reduced) (hb : b.Reduced) (h : a.toRat = b.toRat) :
    a = b := by
  wlog hscale : a.scale ≤ b.scale
  · exact (this hb ha h.symm (by omega)).symm
  have hdigits : a.unscaled * pow10 (b.scale - a.scale).toNat = b.unscaled := by
    have hleft := cast_unscaled_mul_pow10 hscale
    have hright := cast_unscaled_mul_pow10 (d := b) (le_refl b.scale)
    rw [h, ← hright, Int.sub_self] at hleft
    have hone : b.unscaled * pow10 (0 : Int).toNat = b.unscaled := mul_one _
    exact_mod_cast hleft.trans (congrArg _ hone)
  obtain ⟨m, s⟩ := a
  obtain ⟨n, t⟩ := b
  simp only [Reduced] at *
  obtain ⟨k, hk⟩ : ∃ k, (t - s).toNat = k := ⟨_, rfl⟩
  rw [hk] at hdigits
  cases k with
  | zero =>
      have hone : (pow10 0 : Int) = 1 := rfl
      rw [hone, mul_one] at hdigits
      rw [hdigits, show s = t by omega]
  | succ k =>
      have hten : (pow10 (k + 1) : Int) = pow10 k * 10 := by
        simp [pow10, pow_succ]
      have hdvd : 10 ∣ n := ⟨m * pow10 k, by rw [← hdigits, hten]; ring⟩
      have hn : n = 0 := by
        by_contra hne
        rw [if_neg hne] at hb
        exact hb hdvd
      have hm : m = 0 := by
        have hpos : (pow10 (k + 1) : Int) ≠ 0 := by
          simp [pow10]
        exact (mul_eq_zero.mp (hdigits.trans hn)).resolve_right hpos
      rw [if_pos hn] at hb
      rw [if_pos hm] at ha
      omega

theorem normalize_eq_of_compare {a b : Decimal} (h : a.compare b = .eq) :
    a.normalize = b.normalize := by
  rw [compare_eq_cmp, cmp_eq_eq_iff] at h
  refine (reduced_normalize a).eq (reduced_normalize b) ?_
  rw [toRat_normalize, toRat_normalize, h]

end Decimal

theorem NumericKey.normalize_eq_of_compare {k l : NumericKey} (h : k.compare l = .eq) :
    k.normalize = l.normalize := by
  cases k <;> cases l <;> try contradiction
  case finite.finite a b => exact congrArg finite (Decimal.normalize_eq_of_compare h)
  all_goals rfl

/-! ## Payloads -/

theorem eq_of_compareOn {α β : Type} [Ord β] [Std.LawfulEqOrd β] {f : α → β} {a b : α}
    (h : compareOn f a b = .eq) : f a = f b :=
  Std.LawfulEqCmp.eq_of_compare h

instance : Std.LawfulEqOrd Date where
  eq_of_compare := by
    intro a b h
    obtain ⟨hyear, h⟩ := compareLex_eq_eq.mp h
    obtain ⟨hmonth, hday⟩ := compareLex_eq_eq.mp h
    cases a
    cases b
    simpa using ⟨eq_of_compareOn hyear, eq_of_compareOn hmonth, eq_of_compareOn hday⟩

instance : Std.LawfulEqOrd TimeOfDay where
  eq_of_compare := by
    intro a b h
    obtain ⟨hhour, h⟩ := compareLex_eq_eq.mp h
    obtain ⟨hminute, h⟩ := compareLex_eq_eq.mp h
    obtain ⟨hsecond, hnano⟩ := compareLex_eq_eq.mp h
    cases a
    cases b
    simpa using ⟨eq_of_compareOn hhour, eq_of_compareOn hminute, eq_of_compareOn hsecond,
      eq_of_compareOn hnano⟩

instance : Std.LawfulEqOrd Timestamp where
  eq_of_compare := by
    intro a b h
    obtain ⟨hdate, htime⟩ := compareLex_eq_eq.mp h
    cases a
    cases b
    simpa using ⟨eq_of_compareOn hdate, eq_of_compareOn htime⟩

namespace Value

/-! ## Keys and items -/

/-- The data that a value with this key is hashed by, where `items` is that of its items. Only an
array that is present has any. -/
def FlatKey.tokens (items : List HashToken) : FlatKey → List HashToken
  | number key => [.kind .decimal, .number key.normalize]
  | boolean value => [.kind .boolean, .boolean value]
  | date payload => .kind .date :: payloadTokens .date payload
  | time payload => .kind .time :: payloadTokens .time payload
  | timestamp payload => .kind .timestamp :: payloadTokens .timestamp payload
  | string payload => .kind .string :: payloadTokens (fun s => .text s.toList) payload
  | binary payload => .kind .binary :: payloadTokens .bytes payload
  | array false => [.kind .array, .present false]
  | array true => .kind .array :: .present true :: items
  | object text => .kind .object :: payloadTokens .text text

theorem FlatKey.tokens_eq {k l : FlatKey} (h : k.compare? l = some .eq) (items : List HashToken) :
    k.tokens items = l.tokens items := by
  cases k <;> cases l <;> try contradiction
  case number.number k l =>
    rw [tokens, tokens, NumericKey.normalize_eq_of_compare (Option.some.inj h)]
  all_goals rw [Std.LawfulEqCmp.eq_of_compare (Option.some.inj h)]

theorem hashTokens_eq_tokens (a : Value) :
    a.hashTokens = a.flatKey.tokens (.count a.items.length :: hashItems a.items) := by
  cases a with
  | array payload => cases payload <;> simp [hashTokens, flatKey, FlatKey.tokens, items]
  | object payload => cases payload <;> simp [hashTokens, flatKey, FlatKey.tokens, payloadTokens]
  | _ => simp [hashTokens, flatKey, FlatKey.tokens]

theorem hashItems_eq {as bs : List Value}
    (hitems : List.Forall₂ (fun a b => a.compare b = .ok .eq) as bs)
    (hashed : ∀ a ∈ as, ∀ b, a.compare b = .ok .eq → a.hashTokens = b.hashTokens) :
    hashItems as = hashItems bs := by
  induction hitems with
  | nil => rfl
  | cons hab _ ih =>
      rw [List.forall_mem_cons] at hashed
      rw [hashItems, hashItems, hashed.1 _ hab, ih hashed.2]

theorem hashTokens_eq_of_compare (a : Value) :
    ∀ b, a.compare b = .ok .eq → a.hashTokens = b.hashTokens := by
  induction a using byItems with
  | h a ih =>
      intro b h
      rw [compare_eq_andThen, andThen_eq_ok_eq_iff, compareItems_eq_ok_eq_iff] at h
      obtain ⟨hflat, hitems⟩ := h
      rw [hashTokens_eq_tokens, hashTokens_eq_tokens, hitems.length_eq, hashItems_eq hitems ih]
      exact FlatKey.tokens_eq (compare?_of_compareFlat hflat) _

/-- Equal values are hashed by the same data, of whatever kinds they are and however deep their
items lie. -/
theorem hashTokens_eq_of_same {a b : Value} (h : a.same b = true) : a.hashTokens = b.hashTokens :=
  hashTokens_eq_of_compare a b (same_iff.mp h)

/-- Two arrays that are spelled differently throughout: numbers of all kinds, the zeros, two
not-a-numbers, an absent payload, and an object whose wrapper is an entry in the one and an object
in the other. -/
theorem hashTokens_eq_of_same_mixed :
    let wrapper (e : Entry) : Value := object (some ⟨[("day", e)]⟩)
    let a : Value := array (some [decimal ⟨200, 2⟩, decimal ⟨0, -7⟩, double ⟨0x7FF8000000000000⟩,
      array (some [double ⟨0x3FB999999999999A⟩, date none]), wrapper (.date none)])
    let b : Value := array (some [long 2, double ⟨0x8000000000000000⟩, double ⟨0xFFF0000000000001⟩,
      array (some [decimal ⟨1, 1⟩, date none]), wrapper (.object ⟨[("%dt%", .null)]⟩)])
    a.same b = true ∧ a.hashTokens = b.hashTokens := by
  intro wrapper a b
  have h : a.same b = true := by decide +kernel
  exact ⟨h, hashTokens_eq_of_same h⟩

end Value

end ExtendedJson
