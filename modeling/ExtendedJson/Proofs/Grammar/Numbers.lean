import Mathlib.Data.List.TakeWhile
import ExtendedJson.Proofs.Grammar.Basic
import ExtendedJson.Decimal.Literal

/-!
# The scanner of numbers is the grammar's

A number ends where its digits end, so what the scanner takes depends on the character behind the
number: it must be none that could go on with it. `Ended` says that, and under it each part of a
`Numeral` is scanned as it stands. Nothing has to be assumed in the other direction, where the parts
that were scanned are put together to a `Numeral`.
-/

namespace ExtendedJson.Grammar

/-- Whether a text goes on with no character that could belong to a number before it. -/
def Ended (rest : List Char) : Prop :=
  ∀ c ∈ rest.head?, c.isDigit = false ∧ c ≠ '.' ∧ c ≠ 'e' ∧ c ≠ 'E'

/-- Whether a text goes on with no digit. -/
def NoDigit (rest : List Char) : Prop := ∀ c ∈ rest.head?, c.isDigit = false

theorem Ended.noDigit {rest : List Char} (h : Ended rest) : NoDigit rest := fun c hc => (h c hc).1

theorem noDigit_cons {c : Char} (h : c.isDigit = false) (rest : List Char) :
    NoDigit (c :: rest) := by
  intro first hfirst
  simp only [List.head?_cons, Option.mem_def, Option.some.injEq] at hfirst
  rw [← hfirst]
  exact h

theorem takeWhile_nil_of_noDigit {rest : List Char} (h : NoDigit rest) :
    rest.takeWhile Char.isDigit = [] := by
  cases rest with
  | nil => rfl
  | cons c rest =>
      have hc : c.isDigit = false := h c rfl
      exact List.takeWhile_cons_of_neg (by simp [hc])

theorem takeWhile_digits (run : Digits) {rest : List Char} (h : NoDigit rest) :
    (run.text ++ rest).takeWhile Char.isDigit = run.text := by
  rw [List.takeWhile_append_of_pos run.digits, takeWhile_nil_of_noDigit h, List.append_nil]

theorem Digits.exists_cons (run : Digits) : ∃ c rest, run.text = c :: rest ∧ c.isDigit := by
  cases h : run.text with
  | nil => exact absurd h run.nonempty
  | cons c rest => exact ⟨c, rest, rfl, run.digits c (by simp [h])⟩

/-- The digits in front of a text, if there are any. -/
theorem exists_digits {text : List Char} (h : text.takeWhile Char.isDigit ≠ []) :
    ∃ run : Digits, run.text = text.takeWhile Char.isDigit ∧
      text = run.text ++ text.dropWhile Char.isDigit :=
  ⟨⟨_, fun _ hc => List.mem_takeWhile_imp hc, h⟩, rfl, List.takeWhile_append_dropWhile.symm⟩

namespace Numeral

/-- What a numeral is scanned as. -/
def literal (n : Numeral) : Literal where
  negative := n.negative
  whole := n.whole.text
  fraction := n.fractionDigits
  exponentNegative :=
    match n.exponent with
    | none => false
    | some e => e.sign = ['-']
  exponent :=
    match n.exponent with
    | none => []
    | some e => e.digits.text

theorem value_literal (n : Numeral) : n.literal.value = n.value := by
  have hexp : n.literal.exponentValue = n.exponentValue := by
    cases he : n.exponent with
    | none => simp [literal, Literal.exponentValue, Literal.digitValue, exponentValue, he]
    | some e =>
        simp only [literal, Literal.exponentValue, exponentValue, he, decide_eq_true_eq]
        rfl
  rw [Literal.value, hexp]
  rfl

theorem noDigit_fractionText (n : Numeral) {rest : List Char}
    (h : NoDigit (n.exponentText ++ rest)) :
    NoDigit (n.fractionText ++ (n.exponentText ++ rest)) := by
  unfold fractionText
  split
  · exact h
  · exact noDigit_cons (by decide) _

end Numeral

end ExtendedJson.Grammar

namespace ExtendedJson.Literal

open Grammar

/-! ## Scanning a numeral -/

theorem scanWhole_text (n : Numeral) {rest : List Char} (h : NoDigit rest) :
    scanWhole (n.whole.text ++ rest) = .ok (n.whole.text, n.whole.text.length) := by
  obtain ⟨c, tail, htext, -⟩ := n.whole.exists_cons
  have hrun := takeWhile_digits n.whole h
  by_cases hc : c = '0'
  · have hzero : n.whole.text = ['0'] := n.noLeadingZero (by rw [htext, hc]; rfl)
    rw [hzero]
    rfl
  · rw [htext, List.cons_append] at hrun ⊢
    rw [scanWhole.eq_2 _ (by rintro rest' heq; exact hc (List.cons.inj heq).1), hrun]

theorem scanFraction_text (n : Numeral) {rest : List Char} (h : NoDigit rest)
    (hpoint : ∀ c ∈ rest.head?, c ≠ '.') :
    scanFraction (n.fractionText ++ rest) = .ok (n.fractionDigits, n.fractionText.length) := by
  unfold Numeral.fractionText Numeral.fractionDigits
  cases n.fraction with
  | none =>
      rw [List.nil_append, scanFraction.eq_2]
      · rfl
      · rintro rest' rfl
        exact hpoint '.' rfl rfl
  | some run =>
      obtain ⟨c, tail, htext, -⟩ := run.exists_cons
      have hrun := takeWhile_digits run h
      simp only [List.cons_append]
      rw [scanFraction, hrun, htext]
      rfl

theorem scanExponentSign_text (e : Exponent) (rest : List Char) :
    scanExponentSign (e.sign ++ (e.digits.text ++ rest)) =
      (decide (e.sign = ['-']), e.sign.length) := by
  obtain ⟨c, tail, htext, hdigit⟩ := e.digits.exists_cons
  rcases e.sign_mem with h | h | h
  · rw [h, htext, List.nil_append, List.cons_append, scanExponentSign.eq_3]
    · rfl
    · intro rest' heq
      rw [(List.cons.inj heq).1] at hdigit
      exact absurd hdigit (by decide)
    · intro rest' heq
      rw [(List.cons.inj heq).1] at hdigit
      exact absurd hdigit (by decide)
  · rw [h]; rfl
  · rw [h]; rfl

/-- The digits of an exponent are all that follow, whether or not the exponent was to end before. -/
theorem scanExponent_mark (e : Exponent) (limit : Nat) (rest : List Char) :
    scanExponent limit (e.text ++ rest) =
      if digitValue (e.digits.text ++ rest.takeWhile Char.isDigit) > limit then
        .error (.exponentOutOfRange, e.text.length + (rest.takeWhile Char.isDigit).length)
      else
        .ok ((decide (e.sign = ['-']), e.digits.text ++ rest.takeWhile Char.isDigit),
          e.text.length + (rest.takeWhile Char.isDigit).length) := by
  have hmark : (e.text ++ rest).head? = some 'e' ∨ (e.text ++ rest).head? = some 'E' := by
    rcases e.mark_mem with hm | hm
    · exact Or.inl (by rw [Exponent.text, hm]; rfl)
    · exact Or.inr (by rw [Exponent.text, hm]; rfl)
  have hdrop : (e.text ++ rest).drop 1 = e.sign ++ (e.digits.text ++ rest) := by
    simp [Exponent.text]
  have hrun : (e.digits.text ++ rest).takeWhile Char.isDigit =
      e.digits.text ++ rest.takeWhile Char.isDigit := List.takeWhile_append_of_pos e.digits.digits
  have hlength : 1 + e.sign.length + (e.digits.text ++ rest.takeWhile Char.isDigit).length =
      e.text.length + (rest.takeWhile Char.isDigit).length := by
    simp only [Exponent.text, List.length_cons, List.length_append]
    omega
  obtain ⟨c, tail, htext, -⟩ := e.digits.exists_cons
  rw [scanExponent, if_pos hmark, hdrop]
  simp only [scanExponentSign_text, List.drop_left, hrun, ← hlength]
  rw [htext]
  rfl

theorem scanExponent_text (n : Numeral) {limit : Nat} (hlimit : n.magnitude ≤ limit)
    {rest : List Char} (h : Ended rest) :
    scanExponent limit (n.exponentText ++ rest) =
      .ok ((n.literal.exponentNegative, n.literal.exponent), n.exponentText.length) := by
  unfold Numeral.exponentText Numeral.literal
  cases he : n.exponent with
  | none =>
      rw [List.nil_append, scanExponent, if_neg]
      · rfl
      · rintro (hc | hc)
        · exact (h _ hc).2.2.1 rfl
        · exact (h _ hc).2.2.2 rfl
  | some e =>
      have hsize : digitValue e.digits.text ≤ limit := by
        rw [Numeral.magnitude, he] at hlimit
        exact hlimit
      have hrun : rest.takeWhile Char.isDigit = [] := takeWhile_nil_of_noDigit h.noDigit
      simp only [scanExponent_mark, hrun, List.append_nil]
      rw [if_neg (by omega)]
      rfl

/-- An exponent beyond the limit is refused, and more digits behind it do not make it smaller. -/
theorem scanExponent_text_beyond (n : Numeral) {limit : Nat} (hlimit : limit < n.magnitude)
    (rest : List Char) :
    scanExponent limit (n.exponentText ++ rest) =
      .error (.exponentOutOfRange,
        n.exponentText.length + (rest.takeWhile Char.isDigit).length) := by
  unfold Numeral.magnitude at hlimit
  unfold Numeral.exponentText
  split at hlimit
  · exact absurd hlimit (Nat.not_lt_zero _)
  · next e he =>
      have hmore : digitValue e.digits.text ≤
          digitValue (e.digits.text ++ rest.takeWhile Char.isDigit) := by
        rw [digitValue, digitValue, Nat.ofDigitChars_append, Nat.ofDigitChars_eq_ofDigitChars_zero
          (l := rest.takeWhile Char.isDigit)]
        exact Nat.le_add_right_of_le (Nat.le_mul_of_pos_left _ (Nat.pow_pos (by decide)))
      simp only [scanExponent_mark]
      exact if_pos (Nat.lt_of_lt_of_le hlimit hmore)

theorem head?_text_eq_minus_iff (n : Numeral) (rest : List Char) :
    (n.text ++ rest).head? = some '-' ↔ n.negative = true := by
  cases hneg : n.negative with
  | true => simp [Numeral.text, Numeral.signText, hneg]
  | false =>
      obtain ⟨c, tail, htext, hdigit⟩ := n.whole.exists_cons
      simp only [Numeral.text, Numeral.signText, hneg, htext, Bool.false_eq_true, if_false,
        List.nil_append, List.cons_append, List.head?_cons, Option.some.injEq, iff_false]
      rintro rfl
      exact absurd hdigit (by decide)

/-- What stands behind the fraction of a numeral goes on with no digit and no point, since an
exponent begins with its mark. -/
theorem head?_exponentText (n : Numeral) {rest : List Char} (h : Ended rest ∨ n.exponent ≠ none) :
    ∀ c ∈ (n.exponentText ++ rest).head?, c.isDigit = false ∧ c ≠ '.' := by
  unfold Numeral.exponentText
  split
  · next hnone =>
      have hended : Ended rest := h.resolve_right fun hsome => hsome hnone
      exact fun c hc => ⟨(hended c hc).1, (hended c hc).2.1⟩
  · next e he =>
      intro c hc
      have hmark : e.mark = c := Option.some.inj hc
      rcases e.mark_mem with hm | hm <;> rw [← hmark, hm] <;> decide

/-- A numeral is scanned up to its exponent, and then the exponent decides. -/
theorem scan_text_eq (n : Numeral) (limit : Nat) {rest : List Char}
    (h : Ended rest ∨ n.exponent ≠ none) :
    scan limit (n.text ++ rest) =
      match scanExponent limit (n.exponentText ++ rest) with
      | .error (fault, used) =>
        .error (fault, n.signText.length + n.whole.text.length + n.fractionText.length + used)
      | .ok ((exponentNegative, exponent), used) =>
        .ok (⟨n.negative, n.whole.text, n.fractionDigits, exponentNegative, exponent⟩,
          n.signText.length + n.whole.text.length + n.fractionText.length + used) := by
  have hhead := head?_exponentText n h
  have hdigit : NoDigit (n.exponentText ++ rest) := fun c hc => (hhead c hc).1
  have hwhole := scanWhole_text n (n.noDigit_fractionText hdigit)
  have hfraction := scanFraction_text n hdigit fun c hc => (hhead c hc).2
  have hsign : (if n.negative = true then 1 else 0) = n.signText.length := by
    unfold Numeral.signText
    split <;> rfl
  have htext : n.text ++ rest =
      n.signText ++ (n.whole.text ++ (n.fractionText ++ (n.exponentText ++ rest))) := by
    simp [Numeral.text]
  have hdrop₁ : (n.text ++ rest).drop n.signText.length =
      n.whole.text ++ (n.fractionText ++ (n.exponentText ++ rest)) := by
    rw [htext, List.drop_left]
  have hdrop₂ : (n.text ++ rest).drop (n.signText.length + n.whole.text.length) =
      n.fractionText ++ (n.exponentText ++ rest) := by
    rw [← List.drop_drop, hdrop₁, List.drop_left]
  have hdrop₃ : (n.text ++ rest).drop
      (n.signText.length + n.whole.text.length + n.fractionText.length) =
        n.exponentText ++ rest := by
    rw [← List.drop_drop, hdrop₂, List.drop_left]
  have hnegative : decide (n.negative = true) = n.negative := by cases n.negative <;> rfl
  rw [scan]
  rcases hexponent : scanExponent limit (n.exponentText ++ rest) with
    ⟨fault, used⟩ | ⟨⟨exponentNegative, exponent⟩, used⟩
  all_goals
    simp only [head?_text_eq_minus_iff, hsign, hdrop₁, hwhole, hdrop₂, hfraction, hdrop₃,
      hnegative, hexponent]

/-- A numeral is scanned to its end, unless what follows could go on with it. -/
theorem scan_text (n : Numeral) {limit : Nat} (hlimit : n.magnitude ≤ limit) {rest : List Char}
    (h : Ended rest) : scan limit (n.text ++ rest) = .ok (n.literal, n.text.length) := by
  rw [scan_text_eq n limit (.inl h), scanExponent_text n hlimit h]
  refine congrArg Except.ok (Prod.ext rfl ?_)
  simp [Numeral.text]
  omega

/-- A numeral with an exponent beyond the limit is refused behind its digits, whatever follows. -/
theorem scan_text_beyond (n : Numeral) {limit : Nat} (hlimit : limit < n.magnitude)
    (rest : List Char) :
    scan limit (n.text ++ rest) =
      .error (.exponentOutOfRange, n.text.length + (rest.takeWhile Char.isDigit).length) := by
  have hexponent : n.exponent ≠ none := by
    intro hnone
    rw [Numeral.magnitude, hnone] at hlimit
    exact absurd hlimit (Nat.not_lt_zero _)
  rw [scan_text_eq n limit (.inr hexponent), scanExponent_text_beyond n hlimit]
  refine congrArg Except.error (Prod.ext rfl ?_)
  simp [Numeral.text]
  omega

/-! ## What is scanned -/

theorem scanWhole_sound {text whole : List Char} {used : Nat}
    (h : scanWhole text = .ok (whole, used)) :
    ∃ (run : Digits) (rest : List Char), text = run.text ++ rest ∧ run.text = whole ∧
      used = run.text.length ∧ (run.text.head? = some '0' → run.text = ['0']) := by
  unfold scanWhole at h
  split at h
  · next rest =>
      injection h with h
      injection h with hwhole hused
      exact ⟨⟨['0'], by simp, by simp⟩, rest, rfl, hwhole, hused.symm, fun _ => rfl⟩
  · next hzero =>
      split at h
      · simp at h
      · next hne =>
          obtain ⟨run, hrun, htext⟩ := exists_digits hne
          injection h with h
          injection h with hwhole hused
          refine ⟨run, _, htext, hrun.trans hwhole, by rw [← hused, hrun], fun hhead => ?_⟩
          obtain ⟨c, tail, hcons, -⟩ := run.exists_cons
          rw [hcons] at hhead htext
          rw [Option.some.inj hhead] at htext
          exact absurd htext (hzero _)

theorem scanFraction_sound {text fraction : List Char} {used : Nat}
    (h : scanFraction text = .ok (fraction, used)) :
    ∃ (part : Option Digits) (rest : List Char), ∀ n : Numeral, n.fraction = part →
      text = n.fractionText ++ rest ∧ n.fractionDigits = fraction ∧
        used = n.fractionText.length := by
  unfold scanFraction at h
  split at h
  · next rest =>
      split at h
      · simp at h
      · next hne =>
          obtain ⟨run, hrun, htext⟩ := exists_digits hne
          injection h with h
          injection h with hfraction hused
          refine ⟨some run, rest.dropWhile Char.isDigit, fun n hn => ?_⟩
          simp only [Numeral.fractionText, Numeral.fractionDigits, hn]
          exact ⟨congrArg _ htext, hrun.trans hfraction, by rw [← hused, hrun]; rfl⟩
  · injection h with h
    injection h with hfraction hused
    refine ⟨none, text, fun n hn => ?_⟩
    simp only [Numeral.fractionText, Numeral.fractionDigits, hn]
    exact ⟨rfl, hfraction, hused.symm⟩

theorem scanExponentSign_sound (text : List Char) :
    ∃ sign rest, text = sign ++ rest ∧ (sign = [] ∨ sign = ['+'] ∨ sign = ['-']) ∧
      scanExponentSign text = (decide (sign = ['-']), sign.length) := by
  unfold scanExponentSign
  split
  · next rest => exact ⟨['-'], rest, rfl, by simp, rfl⟩
  · next rest => exact ⟨['+'], rest, rfl, by simp, rfl⟩
  · exact ⟨[], text, rfl, by simp, rfl⟩

theorem scanExponent_sound {limit used : Nat} {text digits : List Char} {negative : Bool}
    (h : scanExponent limit text = .ok ((negative, digits), used)) :
    ∃ (part : Option Exponent) (rest : List Char), ∀ n : Numeral, n.exponent = part →
      text = n.exponentText ++ rest ∧ n.literal.exponentNegative = negative ∧
        n.literal.exponent = digits ∧ used = n.exponentText.length ∧ n.magnitude ≤ limit := by
  unfold scanExponent at h
  split at h
  · next hmark =>
      obtain ⟨mark, hmark, htext⟩ : ∃ mark, (mark = 'e' ∨ mark = 'E') ∧
          text = mark :: text.drop 1 := by
        cases text with
        | nil => simp at hmark
        | cons c rest => exact ⟨c, by simpa using hmark, rfl⟩
      obtain ⟨sign, behind, hbehind, hsign, hscan⟩ := scanExponentSign_sound (text.drop 1)
      simp only [hscan] at h
      rw [hbehind, List.drop_left] at h
      split at h
      · simp at h
      · next hne =>
          obtain ⟨run, hrun, hrest⟩ := exists_digits hne
          generalize behind.dropWhile Char.isDigit = tail at hrest
          rw [← hrun] at h
          split at h
          · simp at h
          · next hsize =>
              injection h with h
              injection h with hvalue hused
              injection hvalue with hnegative hdigits
              refine ⟨some ⟨mark, sign, run, hmark, hsign⟩, tail, fun n hn => ?_⟩
              simp only [Numeral.exponentText, Numeral.literal, Numeral.magnitude, Exponent.text, hn]
              refine ⟨?_, hnegative, hdigits, ?_, Nat.le_of_not_lt hsize⟩
              · rw [htext, hbehind, hrest]
                simp
              · rw [← hused]
                simp
                omega
  · injection h with h
    injection h with hvalue hused
    injection hvalue with hnegative hdigits
    refine ⟨none, text, fun n hn => ?_⟩
    simp only [Numeral.exponentText, Numeral.literal, Numeral.magnitude, hn]
    exact ⟨rfl, hnegative, hdigits, hused.symm, Nat.zero_le _⟩

/-- What is scanned is a numeral. -/
theorem scan_sound {limit used : Nat} {text : List Char} {l : Literal}
    (h : scan limit text = .ok (l, used)) :
    ∃ (n : Numeral) (rest : List Char), text = n.text ++ rest ∧ n.literal = l ∧
      used = n.text.length ∧ n.magnitude ≤ limit := by
  obtain ⟨negative, behind, htext, hnegative⟩ : ∃ (negative : Bool) (behind : List Char),
      text = (if negative then ['-'] else []) ++ behind ∧
        negative = decide (text.head? = some '-') := by
    by_cases hminus : text.head? = some '-'
    · obtain ⟨tail, rfl⟩ := List.head?_eq_some_iff.mp hminus
      exact ⟨true, tail, rfl, by simp⟩
    · exact ⟨false, text, rfl, by simp [hminus]⟩
  have hdrop : text.drop (if negative then 1 else 0) = behind := by
    rw [htext]
    cases negative <;> rfl
  unfold scan at h
  simp only [← hnegative] at h
  rw [hdrop] at h
  split at h
  · simp at h
  · next whole wholeWidth hwhole =>
      obtain ⟨run, rest₁, rfl, rfl, rfl, hzero⟩ := scanWhole_sound hwhole
      rw [← List.drop_drop, hdrop, List.drop_left] at h
      split at h
      · simp at h
      · next fraction fractionWidth hfraction =>
          obtain ⟨fractionPart, rest₂, hpart₂⟩ := scanFraction_sound hfraction
          split at h
          · simp at h
          · next exponentNegative digits exponentWidth hexponent =>
              obtain ⟨exponentPart, rest₃, hpart₃⟩ := scanExponent_sound hexponent
              let n : Numeral := ⟨negative, run, fractionPart, exponentPart, hzero⟩
              obtain ⟨htext₂, hdigits₂, hwidth₂⟩ := hpart₂ n rfl
              rw [← List.drop_drop, ← List.drop_drop, hdrop, List.drop_left, htext₂, hwidth₂,
                List.drop_left] at hpart₃
              obtain ⟨htext₃, hnegative₃, hdigits₃, hwidth₃, hsize⟩ := hpart₃ n rfl
              injection h with h
              injection h with hl hused
              refine ⟨n, rest₃, ?_, ?_, ?_, hsize⟩
              · rw [htext, htext₂, htext₃]
                simp [Numeral.text, Numeral.signText, n]
              · rw [← hl, Literal.mk.injEq]
                exact ⟨rfl, rfl, hdigits₂, hnegative₃, hdigits₃⟩
              · rw [← hused, hwidth₂, hwidth₃, Numeral.text, Numeral.signText]
                cases negative <;> simp [n] <;> omega

end ExtendedJson.Literal
