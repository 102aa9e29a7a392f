import ExtendedJson.Proofs.Grammar.Basic
import ExtendedJson.Text.JsonString

/-!
# The scanner of string literals is the grammar's

`scanBody` looks at one character at a time, and each step of it is one `Letter`: in one direction
the letters of a literal are scanned one after the other, in the other each successful step gives the
letter that it has read. So both directions are inductions that add a letter in front.
-/

namespace ExtendedJson.JsonString

open Grammar

/-! ## Hexadecimal digits -/

theorem hexValue?_char (d : HexDigit) : hexValue? d.char = some d.value := by
  obtain ⟨value, upper⟩ := d
  revert value upper
  decide

theorem exists_hexDigit {c : Char} {v : Nat} (h : hexValue? c = some v) :
    ∃ d : HexDigit, d.char = c ∧ d.value = v := by
  unfold hexValue? at h
  simp only [Char.le_def, UInt32.le_iff_toNat_le] at h
  split at h
  · next hc =>
      have hlow : 48 ≤ c.toNat := hc.1
      have hhigh : c.toNat ≤ 57 := hc.2
      have hv : c.toNat - 48 = v := Option.some.inj h
      have hchar : Char.ofNat (48 + v) = c := by
        rw [show 48 + v = c.toNat by omega, Char.ofNat_toNat]
      refine ⟨⟨⟨v, by omega⟩, false⟩, ?_, rfl⟩
      rw [HexDigit.char, if_pos (show v < 10 by omega)]
      exact hchar
  · split at h
    · next hc =>
        have hlow : 97 ≤ c.toNat := hc.1
        have hhigh : c.toNat ≤ 102 := hc.2
        have hv : c.toNat - 97 + 10 = v := Option.some.inj h
        have hchar : Char.ofNat (97 + (v - 10)) = c := by
          rw [show 97 + (v - 10) = c.toNat by omega, Char.ofNat_toNat]
        refine ⟨⟨⟨v, by omega⟩, false⟩, ?_, rfl⟩
        rw [HexDigit.char, if_neg (show ¬ v < 10 by omega)]
        exact hchar
    · split at h
      · next hc =>
          have hlow : 65 ≤ c.toNat := hc.1
          have hhigh : c.toNat ≤ 70 := hc.2
          have hv : c.toNat - 65 + 10 = v := Option.some.inj h
          have hchar : Char.ofNat (65 + (v - 10)) = c := by
            rw [show 65 + (v - 10) = c.toNat by omega, Char.ofNat_toNat]
          refine ⟨⟨⟨v, by omega⟩, true⟩, ?_, rfl⟩
          rw [HexDigit.char, if_neg (show ¬ v < 10 by omega)]
          exact hchar
      · exact absurd h (by simp)

theorem scanHex_text (d : FourHex) (rest : List Char) :
    scanHex 4 0 0 (d.text ++ rest) = .ok (d.value, 4) := by
  simp only [FourHex.text, List.cons_append, List.nil_append, scanHex, hexValue?_char]
  refine congrArg (fun n => Except.ok (n, 4)) ?_
  rw [FourHex.value]
  omega

/-- One step of `scanHex` that succeeded. -/
theorem scanHex_succ {count value used total v : Nat} {text : List Char}
    (h : scanHex (count + 1) value used text = .ok (v, total)) :
    ∃ (d : HexDigit) (rest : List Char), text = d.char :: rest ∧
      scanHex count (16 * value + d.value) (used + 1) rest = .ok (v, total) := by
  cases text with
  | nil => simp [scanHex] at h
  | cons c rest =>
      rw [scanHex] at h
      split at h
      · simp at h
      · next digit hd =>
          obtain ⟨d, rfl, rfl⟩ := exists_hexDigit hd
          exact ⟨d, rest, rfl, h⟩

theorem exists_fourHex {text : List Char} {v total : Nat}
    (h : scanHex 4 0 0 text = .ok (v, total)) :
    ∃ (d : FourHex) (rest : List Char), text = d.text ++ rest ∧ d.value = v ∧ total = 4 := by
  obtain ⟨d₁, text₁, rfl, h₁⟩ := scanHex_succ h
  obtain ⟨d₂, text₂, rfl, h₂⟩ := scanHex_succ h₁
  obtain ⟨d₃, text₃, rfl, h₃⟩ := scanHex_succ h₂
  obtain ⟨d₄, text₄, rfl, h₄⟩ := scanHex_succ h₃
  rw [scanHex] at h₄
  injection h₄ with h₄
  injection h₄ with hv ht
  refine ⟨⟨d₁, d₂, d₃, d₄⟩, text₄, rfl, ?_, by omega⟩
  rw [FourHex.value, ← hv]
  simp only
  omega

/-! ## Escapes -/

theorem scanUnicode_code {d : FourHex} (h : d.value < 0xD800 ∨ 0xE000 ≤ d.value)
    (rest : List Char) : scanUnicode (d.text ++ rest) = .ok (Char.ofNat d.value, 4) := by
  have hhigh : isHighSurrogate d.value = false := by
    simp only [isHighSurrogate, Bool.and_eq_false_imp, decide_eq_true_eq, decide_eq_false_iff_not]
    omega
  have hlow : isLowSurrogate d.value = false := by
    simp only [isLowSurrogate, Bool.and_eq_false_imp, decide_eq_true_eq, decide_eq_false_iff_not]
    omega
  rw [scanUnicode, scanHex_text]
  simp only [hhigh, hlow, Bool.false_eq_true, if_false]

theorem scanUnicode_pair {high low : FourHex} (hh : 0xD800 ≤ high.value ∧ high.value < 0xDC00)
    (hl : 0xDC00 ≤ low.value ∧ low.value < 0xE000) (rest : List Char) :
    scanUnicode (high.text ++ '\\' :: 'u' :: (low.text ++ rest)) =
      .ok (Char.ofNat (pairCode high.value low.value), 10) := by
  have hhigh : isHighSurrogate high.value = true := by
    simp only [isHighSurrogate, Bool.and_eq_true, decide_eq_true_eq]
    exact hh
  have hlow : isLowSurrogate low.value = true := by
    simp only [isLowSurrogate, Bool.and_eq_true, decide_eq_true_eq]
    exact hl
  have hdrop : (high.text ++ '\\' :: 'u' :: (low.text ++ rest)).drop 4 =
      '\\' :: 'u' :: (low.text ++ rest) := rfl
  rw [scanUnicode, scanHex_text]
  simp only [hhigh, if_true, hdrop, scanHex_text, hlow]

theorem scanEscape_short {mark named : Char} (h : (mark, named) ∈ shortEscapes)
    (rest : List Char) : scanEscape (mark :: rest) = .ok (named, 1) := by
  simp only [shortEscapes, List.mem_cons, Prod.mk.injEq, List.not_mem_nil, or_false] at h
  rcases h with h | h | h | h | h | h | h | h <;> obtain ⟨rfl, rfl⟩ := h <;> rfl

theorem scanEscape_unicode {text : List Char} {named : Char} {used : Nat}
    (h : scanUnicode text = .ok (named, used)) :
    scanEscape ('u' :: text) = .ok (named, used + 1) := by
  rw [scanEscape]
  simp only [h]

theorem scanUnicode_sound {text : List Char} {named : Char} {used : Nat}
    (h : scanUnicode text = .ok (named, used)) :
    ∃ (l : Letter) (tail rest : List Char), text = tail ++ rest ∧ l.text = '\\' :: 'u' :: tail ∧
      l.char = named ∧ used = tail.length := by
  unfold scanUnicode at h
  split at h
  · simp at h
  · next first used₁ hfirst =>
      obtain ⟨d, rest, rfl, rfl, rfl⟩ := exists_fourHex hfirst
      split at h
      · next hhigh =>
          simp only [isHighSurrogate, Bool.and_eq_true, decide_eq_true_eq] at hhigh
          rw [show (4 : Nat) = d.text.length from rfl, List.drop_left] at h
          split at h
          · next rest₂ =>
              split at h
              · simp at h
              · next second used₂ hsecond =>
                  obtain ⟨low, rest₃, rfl, rfl, rfl⟩ := exists_fourHex hsecond
                  split at h
                  · next hlow =>
                      simp only [isLowSurrogate, Bool.and_eq_true, decide_eq_true_eq] at hlow
                      injection h with h
                      injection h with hnamed hused
                      exact ⟨.pair d low hhigh hlow, d.text ++ '\\' :: 'u' :: low.text, rest₃,
                        by simp, rfl, hnamed, hused.symm⟩
                  · simp at h
          · simp at h
      · next hhigh =>
          split at h
          · simp at h
          · next hlow =>
              simp only [isHighSurrogate, isLowSurrogate, Bool.and_eq_true,
                decide_eq_true_eq] at hhigh hlow
              injection h with h
              injection h with hnamed hused
              exact ⟨.code d (by omega), d.text, rest, rfl, rfl, hnamed, hused.symm⟩

theorem scanEscape_sound {text : List Char} {named : Char} {used : Nat}
    (h : scanEscape text = .ok (named, used)) :
    ∃ (l : Letter) (tail rest : List Char), text = tail ++ rest ∧ l.text = '\\' :: tail ∧
      l.char = named ∧ used = tail.length := by
  unfold scanEscape at h
  split at h
  · simp at h
  · next c rest =>
      have hshort : ∀ n, (c, n) ∈ shortEscapes → (.ok (n, 1) : Scan Char) = .ok (named, used) →
          ∃ (l : Letter) (tail rest' : List Char), c :: rest = tail ++ rest' ∧
            l.text = '\\' :: tail ∧ l.char = named ∧ used = tail.length := by
        intro n hn hok
        injection hok with hok
        injection hok with hnamed hused
        exact ⟨.short c n hn, [c], rest, rfl, rfl, hnamed, hused.symm⟩
      split at h
      · exact hshort _ (by decide) h
      · exact hshort _ (by decide) h
      · exact hshort _ (by decide) h
      · exact hshort _ (by decide) h
      · exact hshort _ (by decide) h
      · exact hshort _ (by decide) h
      · exact hshort _ (by decide) h
      · exact hshort _ (by decide) h
      · split at h
        · simp at h
        · next named₁ used₁ hu =>
            obtain ⟨l, tail, rest', rfl, hl, hchar, rfl⟩ := scanUnicode_sound hu
            injection h with h
            injection h with hnamed hused
            exact ⟨l, 'u' :: tail, rest', rfl, hl, hchar.trans hnamed, hused.symm⟩
      · simp at h

/-! ## Bodies -/

theorem scanFrom_plain {c : Char} (h : ' ' ≤ c ∧ c ≠ '"' ∧ c ≠ '\\') (kept : List Char)
    (used : Nat) (rest : List Char) :
    scanFrom kept used (c :: rest) = scanFrom (c :: kept) (used + 1) rest := by
  rw [scanFrom.eq_4 _ _ _ _ h.2.1 h.2.2, if_neg (Char.not_lt.mpr h.1)]

theorem scanFrom_escape {rest : List Char} {named : Char} {more : Nat}
    (h : scanEscape rest = .ok (named, more)) (kept : List Char) (used : Nat) :
    scanFrom kept used ('\\' :: rest) =
      scanFrom (named :: kept) (used + 1 + more) (rest.drop more) := by
  rw [scanFrom, h]

theorem scanFrom_letter (l : Letter) (kept : List Char) (used : Nat) (rest : List Char) :
    scanFrom kept used (l.text ++ rest) =
      scanFrom (l.char :: kept) (used + l.text.length) rest := by
  cases l with
  | plain c allowed => exact scanFrom_plain allowed kept used rest
  | short mark named known => exact scanFrom_escape (scanEscape_short known rest) kept used
  | code digits noSurrogate =>
      exact scanFrom_escape (scanEscape_unicode (scanUnicode_code noSurrogate rest)) kept used
  | pair high low high_mem low_mem =>
      rw [Letter.text, List.cons_append, List.cons_append, List.append_assoc]
      exact scanFrom_escape (scanEscape_unicode (scanUnicode_pair high_mem low_mem rest)) kept used

theorem scanFrom_body (letters : List Letter) (rest : List Char) : ∀ kept used,
    scanFrom kept used (letters.flatMap Letter.text ++ '"' :: rest) =
      .ok (kept.reverse ++ letters.map Letter.char,
        used + (letters.flatMap Letter.text).length + 1) := by
  induction letters with
  | nil =>
      intro kept used
      rw [List.flatMap_nil, List.nil_append, scanFrom]
      simp
  | cons l letters ih =>
      intro kept used
      rw [List.flatMap_cons, List.append_assoc, scanFrom_letter, ih]
      simp [Nat.add_assoc]

theorem scanFrom_sound {kept text content : List Char} {used total : Nat}
    (h : scanFrom kept used text = .ok (content, total)) :
    ∃ (letters : List Letter) (rest : List Char),
      text = letters.flatMap Letter.text ++ '"' :: rest ∧
      content = kept.reverse ++ letters.map Letter.char ∧
      total = used + (letters.flatMap Letter.text).length + 1 := by
  fun_induction scanFrom kept used text with
  | case1 | case3 | case5 => simp at h
  | case2 kept used rest =>
      injection h with h
      injection h with hcontent htotal
      exact ⟨[], rest, rfl, by simp [hcontent], by simp [htotal]⟩
  | case4 kept used rest named more hescape ih =>
      obtain ⟨l, tail, rest, rfl, hl, rfl, rfl⟩ := scanEscape_sound hescape
      obtain ⟨letters, rest', hrest, hcontent, htotal⟩ := ih h
      rw [List.drop_left] at hrest
      exact ⟨l :: letters, rest', by simp [hl, hrest], by simp [hcontent],
        by simp [hl, htotal]; omega⟩
  | case6 kept used c rest hquote hback hlayout ih =>
      obtain ⟨letters, rest', rfl, hcontent, htotal⟩ := ih h
      refine ⟨.plain c ⟨Char.not_lt.mp hlayout, hquote, hback⟩ :: letters, rest', rfl,
        by simp [hcontent, Letter.char], ?_⟩
      simp [htotal, Letter.text]
      omega

/-- A literal is scanned to its end, whatever follows it. -/
theorem scanBody_body (q : Quoted) (rest : List Char) :
    scanBody (q.body ++ '"' :: rest) = .ok (q.content, q.body.length + 1) := by
  rw [scanBody, Quoted.body, scanFrom_body]
  simp [Quoted.content]

/-- What is scanned is a literal. -/
theorem scanBody_sound {text content : List Char} {used : Nat}
    (h : scanBody text = .ok (content, used)) :
    ∃ (q : Quoted) (rest : List Char), text = q.body ++ '"' :: rest ∧ q.content = content ∧
      used = q.body.length + 1 := by
  obtain ⟨letters, rest, htext, hcontent, hused⟩ := scanFrom_sound h
  rw [Nat.zero_add] at hused
  exact ⟨⟨letters⟩, rest, htext, hcontent.symm, hused⟩

end ExtendedJson.JsonString
