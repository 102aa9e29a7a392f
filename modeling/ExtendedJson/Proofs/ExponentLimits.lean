import ExtendedJson.Decimal.Exponent
import ExtendedJson.Proofs.Grammar.Numerals
import ExtendedJson.Proofs.Grammar.Refusals
import ExtendedJson.Proofs.Recognition

/-!
# Exponents cannot amplify a literal

A number is written with a zero for each place that its scale moves the point, so a literal of a few
characters may stand for a text of any length. The limit on exponents bounds that: scale and plain
text go no further from the literal than the limit says. For this to hold of every text, the limit
has to be kept for exponents of any length, which a reader adds up in machine words.

There is one induction for each of the parts. What the digits add up to is shown by an induction on
them: a sum that fits a word is the number that is spelled, and one that does not is beyond any
limit. That an exponent beyond the limit is refused wherever it stands is shown by an induction on
the levels of the document, with the part in which it stands as the part that is refused.
-/

namespace ExtendedJson

open Grammar

/-! ## Digits added up in words -/

theorem toNat_le_largestWord (a : UInt64) : a.toNat ≤ largestWord.toNat :=
  Nat.le_of_lt_succ a.toNat_lt

theorem toNat_saturatedProduct (a b : UInt64) :
    (saturatedProduct a b).toNat = min (a.toNat * b.toNat) largestWord.toNat := by
  have hlargest : largestWord.toNat + 1 = UInt64.size := rfl
  unfold saturatedProduct
  split
  · next h =>
      rw [UInt64.toNat_mul, Nat.mod_eq_of_lt h]
      omega
  · omega

theorem toNat_saturatedSum (a b : UInt64) :
    (saturatedSum a b).toNat = min (a.toNat + b.toNat) largestWord.toNat := by
  have hlargest : largestWord.toNat + 1 = UInt64.size := rfl
  unfold saturatedSum
  split
  · next h =>
      rw [UInt64.toNat_add, Nat.mod_eq_of_lt h]
      omega
  · omega

theorem digit_lt_ten {c : Char} (h : c.isDigit) : c.toNat - '0'.toNat < 10 := by
  have hle : c.toNat ≤ '9'.toNat := (Char.isDigit_iff_toNat.mp h).2
  have hnine : '9'.toNat = '0'.toNat + 9 := rfl
  omega

namespace Literal

/-- The step: a digit makes of a sum what it makes of a number, up to the largest word. -/
theorem toNat_appendDigit (sum : UInt64) {c : Char} (h : c.isDigit) :
    (appendDigit sum c).toNat =
      min (10 * sum.toNat + (c.toNat - '0'.toNat)) largestWord.toNat := by
  have hten : (10 : UInt64).toNat = 10 := rfl
  have hdigit : (c.toNat - '0'.toNat).toUInt64.toNat = c.toNat - '0'.toNat :=
    UInt64.toNat_ofNat_of_lt' (Nat.lt_trans (digit_lt_ten h) (by decide))
  rw [appendDigit, toNat_saturatedSum, toNat_saturatedProduct, hdigit, hten]
  omega

/-- A number that has reached a bound stays there, so it may be cut down before its last digits. -/
theorem min_ofDigitChars (digits : List Char) (n bound : Nat) :
    min (Nat.ofDigitChars 10 digits (min n bound)) bound =
      min (Nat.ofDigitChars 10 digits n) bound := by
  have hsplit (n : Nat) : Nat.ofDigitChars 10 digits n =
      10 ^ digits.length * n + Nat.ofDigitChars 10 digits 0 :=
    Nat.ofDigitChars_eq_ofDigitChars_zero
  rw [hsplit (min n bound), hsplit n]
  have hpos : 0 < 10 ^ digits.length := Nat.pow_pos (by decide)
  rcases Nat.le_total n bound with hle | hle
  · rw [Nat.min_eq_left hle]
  · rw [Nat.min_eq_right hle]
    have hbound := Nat.le_mul_of_pos_left bound hpos
    have hn := Nat.le_mul_of_pos_left n hpos
    omega

/-- The run: digits added up in a word make what they spell, up to the largest word. -/
theorem sumDigits_eq (sum : UInt64) (passed : Nat) (text : List Char) :
    (sumDigits sum passed text).1.toNat =
        min (Nat.ofDigitChars 10 (text.takeWhile Char.isDigit) sum.toNat) largestWord.toNat ∧
      (sumDigits sum passed text).2 = passed + (text.takeWhile Char.isDigit).length := by
  induction text generalizing sum passed with
  | nil => exact ⟨(Nat.min_eq_left (toNat_le_largestWord sum)).symm, rfl⟩
  | cons c rest ih =>
      rw [sumDigits]
      by_cases hc : c.isDigit
      · rw [if_pos hc, List.takeWhile_cons_of_pos hc, Nat.ofDigitChars_cons, List.length_cons]
        obtain ⟨hsum, hpassed⟩ := ih (appendDigit sum c) (passed + 1)
        refine ⟨?_, by omega⟩
        rw [hsum, toNat_appendDigit sum hc, min_ofDigitChars]
      · rw [if_neg hc, List.takeWhile_cons_of_neg hc]
        exact ⟨(Nat.min_eq_left (toNat_le_largestWord sum)).symm, rfl⟩

/-- The sum is beyond half a word just when the number that is spelled is: where the two differ,
both have passed every half word. -/
theorem lt_sumDigits_iff (limit : UInt32) (passed : Nat) (text : List Char) :
    limit.toUInt64 < (sumDigits 0 passed text).1 ↔
      limit.toNat < digitValue (text.takeWhile Char.isDigit) := by
  have hlimit : limit.toNat < largestWord.toNat :=
    Nat.lt_of_lt_of_le limit.toNat_lt (by decide)
  rw [UInt64.lt_iff_toNat_lt, (sumDigits_eq 0 passed text).1, UInt32.toNat_toUInt64]
  change _ < min (digitValue _) _ ↔ _
  omega

theorem any_head?_iff (p : Char → Bool) (text : List Char) :
    text.head?.any p ↔ text.takeWhile p ≠ [] := by
  cases text with
  | nil => simp
  | cons c rest => by_cases hc : p c <;> simp [hc]

/-- Adding up in words takes and refuses the same exponents, and after as many characters. -/
theorem scanExponentInWords_eq (limit : UInt32) (text : List Char) :
    scanExponentInWords limit text = scanExponent limit.toNat text := by
  unfold scanExponentInWords scanExponent
  split
  · simp only
    generalize (text.drop 1).drop (scanExponentSign (text.drop 1)).2 = behind
    have hsum := lt_sumDigits_iff limit 0 behind
    have hpassed := (sumDigits_eq 0 0 behind).2
    rw [Nat.zero_add] at hpassed
    have htake : behind.takeWhile Char.isDigit = behind.take (sumDigits 0 0 behind).2 := by
      rw [hpassed]
      exact List.prefix_iff_eq_take.mp (List.takeWhile_prefix _)
    cases hdigits : behind.takeWhile Char.isDigit with
    | nil => rw [if_neg fun hany => (any_head?_iff _ _).mp hany hdigits]
    | cons c tail =>
        rw [if_pos ((any_head?_iff _ _).mpr (by simp [hdigits])), ← htake, hpassed]
        simp only [hdigits, gt_iff_lt, hsum]
  · rfl

theorem digitValue_zeros (zeros : Nat) (digits : List Char) :
    digitValue (List.replicate zeros '0' ++ digits) = digitValue digits := by
  rw [digitValue, Nat.ofDigitChars_append, Nat.ofDigitChars_replicate_zero, Nat.mul_zero, digitValue]

end Literal

/-! ## The size of what a numeral stands for -/

theorem ofDigitChars_lt {digits : List Char} (h : ∀ c ∈ digits, c.isDigit) (init : Nat) :
    Nat.ofDigitChars 10 digits init < (init + 1) * 10 ^ digits.length := by
  induction digits generalizing init with
  | nil => simp
  | cons c digits ih =>
      rw [List.forall_mem_cons] at h
      have hc := digit_lt_ten h.1
      rw [Nat.ofDigitChars_cons, List.length_cons, Nat.pow_succ']
      calc Nat.ofDigitChars 10 digits (10 * init + (c.toNat - '0'.toNat))
          < (10 * init + (c.toNat - '0'.toNat) + 1) * 10 ^ digits.length := ih h.2 _
        _ ≤ (init + 1) * 10 * 10 ^ digits.length := Nat.mul_le_mul_right _ (by omega)
        _ = (init + 1) * (10 * 10 ^ digits.length) := Nat.mul_assoc _ _ _

namespace Grammar.Numeral

variable (n : Numeral)

theorem natAbs_exponentValue : n.exponentValue.natAbs = n.magnitude := by
  unfold exponentValue magnitude
  split
  · rfl
  · next e _ =>
      unfold Exponent.value
      split <;> simp

theorem length_digitText_value_le :
    n.value.digitText.length ≤ n.whole.text.length + n.fractionDigits.length := by
  have hdigits : ∀ c ∈ n.whole.text ++ n.fractionDigits, c.isDigit := by
    intro c hc
    rcases List.mem_append.mp hc with hc | hc
    · exact n.whole.digits c hc
    · unfold fractionDigits at hc
      split at hc
      · simp at hc
      · next run _ => exact run.digits c hc
  have hpos := List.length_pos_iff.mpr n.whole.nonempty
  have hvalue : n.value.unscaled.natAbs =
      Nat.ofDigitChars 10 (n.whole.text ++ n.fractionDigits) 0 := by
    unfold value
    cases n.negative <;> simp
  have hlt := ofDigitChars_lt hdigits 0
  rw [Nat.zero_add, Nat.one_mul, List.length_append, ← hvalue] at hlt
  exact (Nat.length_toDigits_le_iff (by decide) (by omega)).mpr hlt

theorem length_signText_value_le : n.value.signText.length ≤ n.signText.length := by
  unfold Decimal.signText signText value
  cases n.negative with
  | true => simp; split <;> simp
  | false => simp

theorem length_pointed_le (digits : List Char) (places : Nat) :
    (Decimal.pointed digits places).length ≤ max digits.length (places + 1) + 1 := by
  unfold Decimal.pointed
  split
  · simp
    omega
  · simp
    omega

theorem length_fractionText :
    n.fractionText.length = n.fractionDigits.length + 1 ∨ n.fractionDigits.length = 0 := by
  unfold fractionText fractionDigits
  split
  · exact .inr rfl
  · exact .inl rfl

theorem length_fractionDigits_le : n.fractionDigits.length ≤ n.fractionText.length := by
  rcases n.length_fractionText with h | h <;> omega

theorem exponentText_pos (h : n.exponentValue ≠ 0) : 0 < n.exponentText.length := by
  unfold exponentValue at h
  unfold exponentText
  split at h
  · exact absurd rfl h
  · next e he => simp [Exponent.text]

/-- The plain text has no more characters than the literal and a zero for each place that the
exponent moves the point. A point that the literal lacks takes the place of the exponent's mark. -/
theorem length_plain_value_le : n.value.plain.length ≤ n.text.length + n.magnitude := by
  have hsign := n.length_signText_value_le
  have hdigits := n.length_digitText_value_le
  have hwhole := List.length_pos_iff.mpr n.whole.nonempty
  have hexponent := n.natAbs_exponentValue
  have hscale : n.value.scale = n.fractionDigits.length - n.exponentValue := rfl
  have hlength : n.text.length = n.signText.length + n.whole.text.length + n.fractionText.length +
      n.exponentText.length := by
    simp only [text, List.length_append]
    omega
  rw [Decimal.plain, List.length_append, hlength]
  split
  · have hfraction := n.length_fractionDigits_le
    rw [List.length_append, List.length_replicate]
    omega
  · next hpoint =>
      have hpointed := length_pointed_le n.value.digitText n.value.scale.toNat
      rcases n.length_fractionText with hfraction | hfraction
      · omega
      · have hmark := n.exponentText_pos (by omega)
        omega

theorem scale_bounds {limit : Nat} (h : n.magnitude ≤ limit) :
    -(limit : Int) ≤ n.value.scale ∧ n.value.scale ≤ n.fractionDigits.length + limit := by
  have hexponent := n.natAbs_exponentValue
  have hscale : n.value.scale = n.fractionDigits.length - n.exponentValue := rfl
  omega

end Grammar.Numeral

/-! ## Literals of documents -/

/-- A literal that gives a number, with the room that a limit on exponents leaves to the number's
scale and to its plain text. -/
structure Grammar.Numeral.Gives (limit : Nat) (n : Numeral) (d : Decimal) : Prop where
  value : n.value = d
  magnitude_le : n.magnitude ≤ limit
  le_scale : -(limit : Int) ≤ d.scale
  scale_le : d.scale ≤ n.fractionDigits.length + limit
  length_plain_le : d.plain.length ≤ n.text.length + limit
  written : ∀ options, (Entry.number d).write options = .ok (String.ofList d.plain)

theorem Entry.write_number (d : Decimal) (options : WriterOptions) :
    (Entry.number d).write options = .ok (String.ofList d.plain) := by
  rw [Readable.write_eq (.of_leaf rfl) (Nat.zero_le _)]
  simp [layout, renderPieces, Piece.render]

theorem Grammar.Numeral.Gives.of_magnitude_le {limit : Nat} {n : Numeral}
    (h : n.magnitude ≤ limit) : n.Gives limit n.value where
  value := rfl
  magnitude_le := h
  le_scale := (n.scale_bounds h).1
  scale_le := (n.scale_bounds h).2
  length_plain_le := n.length_plain_value_le.trans (Nat.add_le_add_left h _)
  written := Entry.write_number n.value

/-! ## Documents with an exponent beyond the limit -/

section Refusals

variable {limits : ParserOptions} {levels : Nat}

theorem readNumber_beyond {n : Numeral} (h : limits.maxExponent < n.magnitude) {c : Cursor}
    {rest : List Char} (hc : c.rest = n.text ++ rest) :
    ∃ failure, readNumber limits c = .error failure := by
  rw [readNumber, hc, Literal.scan_text_beyond n h]
  exact ⟨_, rfl⟩

/-- Where exponents beyond the limit are refused, every spelling fits or is refused. -/
theorem exists_read_or_refused (p : Placed Spelling)
    (h : ¬ p.item.ExponentsWithin limits.maxExponent →
      Refuses (readValue limits levels) (p.textBy Spelling.text) fun _ => True) :
    (∃ e, Fits limits levels p.item e) ∨
      Refuses (readValue limits levels) (p.textBy Spelling.text) fun _ => True := by
  by_cases hwithin : p.item.ExponentsWithin limits.maxExponent
  · exact (settles limits levels p hwithin).imp_right fun hrefuses =>
      hrefuses.mono fun _ _ => trivial
  · exact .inr (h hwithin)

/-- Within that many levels an entry with an exponent beyond the limit is refused. -/
def RefusesExponents (limits : ParserOptions) (levels : Nat) : Prop :=
  ∀ p : Placed Spelling, ¬ p.item.ExponentsWithin limits.maxExponent →
    Refuses (readValue limits levels) (p.textBy Spelling.text) fun _ => True

theorem RefusesExponents.array (hinside : RefusesExponents limits levels) {before after gap : Gap}
    {items : List (Placed Spelling)}
    (hexponents : ¬ (Spelling.array gap items).ExponentsWithin limits.maxExponent) :
    Refuses (readValue limits (levels + 1))
      (Placed.textBy Spelling.text ⟨before, .array gap items, after⟩) fun _ => True := by
  simp only [Spelling.exponentsWithin_array_iff, not_forall] at hexponents
  obtain ⟨beyond, hmem, hbeyond⟩ := hexponents
  exact refuses_array fun c rest hc =>
    readBracketed_refused (reads_value limits levels)
      (fun p _ => exists_read_or_refused p (hinside p)) ⟨beyond, hmem, hinside beyond hbeyond⟩
      (fun p _ => opens_placed p) gap hc

theorem RefusesExponents.object (hinside : RefusesExponents limits levels) {before after gap : Gap}
    {members : List (Placed Quoted × Placed Spelling)}
    (hexponents : ¬ (Spelling.object gap members).ExponentsWithin limits.maxExponent) :
    Refuses (readValue limits (levels + 1))
      (Placed.textBy Spelling.text ⟨before, .object gap members, after⟩) fun _ => True := by
  simp only [Spelling.exponentsWithin_object_iff, not_forall] at hexponents
  obtain ⟨beyond, hmem, hbeyond⟩ := hexponents
  exact refuses_object fun c rest hc =>
    readBracketed_refused (reads_member (reads_value limits levels))
      (fun m _ => (exists_read_or_refused m.2 (hinside m.2)).imp exists_fitsMember Refuses.member)
      ⟨beyond, hmem, (hinside beyond.2 hbeyond).member⟩ (fun m _ => opens_memberText m) gap hc

theorem refusesExponents_step
    (hinside : ∀ inner, levels = inner + 1 → RefusesExponents limits inner) :
    RefusesExponents limits levels := by
  intro p hexponents
  obtain ⟨before, s, after⟩ := p
  cases s with
  | null | boolean | string => simp [Spelling.ExponentsWithin, Spelling.numerals] at hexponents
  | number n =>
      have hbeyond : limits.maxExponent < n.magnitude := by
        simpa [Spelling.ExponentsWithin, Spelling.numerals] using hexponents
      refine refuses_of_readEntryAt fun c rest hc => ?_
      obtain ⟨first, tail, htext, hfirst⟩ := n.exists_cons
      obtain ⟨failure, hfailure⟩ := readNumber_beyond hbeyond hc
      rw [readEntryAt_number (by rw [hc, Spelling.text, htext, List.cons_append]) hfirst]
      exact ⟨failure, hfailure, trivial⟩
  | array gap items =>
      cases levels with
      | zero =>
          -- the bracket itself is too deep
          refine refuses_of_readEntryAt fun c rest hc => ?_
          rw [readEntryAt, hc]
          exact ⟨_, rfl, trivial⟩
      | succ inner => exact (hinside inner rfl).array hexponents
  | object gap members =>
      cases levels with
      | zero =>
          refine refuses_of_readEntryAt fun c rest hc => ?_
          rw [readEntryAt, hc]
          exact ⟨_, rfl, trivial⟩
      | succ inner => exact (hinside inner rfl).object hexponents

/-- Whatever its spelling means and whatever follows, an entry with an exponent beyond the limit is
refused. -/
theorem refusesExponents (limits : ParserOptions) (levels : Nat) :
    RefusesExponents limits levels := by
  induction levels with
  | zero => exact refusesExponents_step fun inner h => by simp at h
  | succ levels ih =>
      refine refusesExponents_step fun inner h => ?_
      rw [← Nat.succ.inj h]
      exact ih

/-- A document is read just when it fits the limits, and as what it means. No other spelling of its
text makes up for an exponent that is too large. -/
theorem parseEntry_document_iff_fits {d : Document} {e : Entry} :
    parseEntry (String.ofList d.text) limits = .ok e ↔ Fits limits limits.maxDepth d.item e := by
  by_cases hwithin : d.item.ExponentsWithin limits.maxExponent
  · rw [parseEntry_document_eq_ok_iff hwithin, Fits]
    simp [hwithin]
  · refine iff_of_false (fun hread => ?_) fun hfits => hwithin hfits.2.1
    obtain ⟨error, herror, -⟩ := parseEntry_refused (refusesExponents limits limits.maxDepth d hwithin)
    rw [hread] at herror
    cases herror

end Refusals

/-! ## Texts -/

/-- Every number in an entry is given by a literal of a document that the text is. -/
def GivenByLiterals (limits : ParserOptions) (text : String) (e : Entry) : Prop :=
  ∃ document : Document, document.text = text.toList ∧ ∀ d, Entry.Part (.number d) e →
    ∃ n ∈ document.item.numerals, n.text <:+: text.toList ∧ n.Gives limits.maxExponent d

theorem GivenByLiterals.of_within {limits : ParserOptions} {text : String} {e : Entry}
    (document : Document) (htext : document.text = text.toList)
    (hwithin : document.item.ExponentsWithin limits.maxExponent)
    (hnumbers : e.NumbersSatisfy fun d => ∃ n ∈ document.item.numerals, n.value = d) :
    GivenByLiterals limits text e := by
  refine ⟨document, htext, fun d hpart => ?_⟩
  obtain ⟨n, hn, rfl⟩ := Entry.numbersSatisfy_iff.mp hnumbers d hpart
  refine ⟨n, hn, ?_, .of_magnitude_le (hwithin n hn)⟩
  rw [← htext]
  exact (Spelling.infix_of_mem_numerals hn).trans (document.infix_textBy Spelling.text)

theorem givenByLiterals_of_parseEntry {limits : ParserOptions} {text : String} {e : Entry}
    (h : parseEntry text limits = .ok e) : GivenByLiterals limits text e := by
  obtain ⟨document, htext, -, hwithin, hmeaning⟩ := (parseEntry_eq_ok_iff_spelled _ _ _).mp h
  exact .of_within document htext hwithin (Spelling.numbers_of_meaning hmeaning)

theorem givenByLiterals_of_parseObject {limits : ParserOptions} {text : String} {members : Object}
    (h : parseObject text limits = .ok members) :
    GivenByLiterals limits text (.object members) := by
  unfold parseObject at h
  split at h
  · next read hread =>
      injection h with h
      subst h
      obtain ⟨before, gap, placed, behind, pairs, htext, hfits, rfl⟩ :=
        Parser.readObject_eq_ok_iff.mp hread
      exact .of_within ⟨before, .object gap placed, behind⟩ htext hfits.2.1
        (Spelling.numbers_of_members hfits.2.2)
  · cases h

/-- No literal stands for more than the limit on exponents allows. Whatever is read from a text, as
an entry, an array or an object, each number in it is given by a literal of the text, with a scale
and a plain text that go no further than the limit. A document is read just when it fits the limits,
and a literal is scanned just when its exponent does. The exponent may have any number of digits and
of zeros in front: adding it up in a machine word decides the same. -/
theorem exponents_cannot_amplify :
    (∀ text limits e, parseEntry text limits = .ok e → GivenByLiterals limits text e) ∧
    (∀ text limits items, parseArray text limits = .ok items →
      GivenByLiterals limits text (.array items)) ∧
    (∀ text limits members, parseObject text limits = .ok members →
      GivenByLiterals limits text (.object members)) ∧
    (∀ (document : Document) limits e, parseEntry (String.ofList document.text) limits = .ok e ↔
      document.item.depth ≤ limits.maxDepth ∧
        document.item.ExponentsWithin limits.maxExponent ∧ document.item.meaning? = some e) ∧
    (∀ (n : Numeral) limit rest, Ended rest → Literal.scan limit (n.text ++ rest) =
      if n.magnitude ≤ limit then .ok (n.literal, n.text.length)
      else .error (.exponentOutOfRange, n.text.length)) ∧
    (∀ (limit : UInt32) text,
      Literal.scanExponentInWords limit text = Literal.scanExponent limit.toNat text) ∧
    ∀ (limit : UInt32) zeros (run : Digits),
      limit.toUInt64 < (Literal.sumDigits 0 0 (List.replicate zeros '0' ++ run.text)).1 ↔
        limit.toNat < run.value := by
  refine ⟨fun _ _ _ => givenByLiterals_of_parseEntry,
    fun _ _ _ h => givenByLiterals_of_parseEntry (parseEntry_of_parseArray h),
    fun _ _ _ => givenByLiterals_of_parseObject, fun _ _ _ => parseEntry_document_iff_fits,
    fun n limit rest hrest => ?_, Literal.scanExponentInWords_eq, fun limit zeros run => ?_⟩
  · split
    · next hle => exact Literal.scan_text n hle hrest
    · next hlt =>
        rw [Literal.scan_text_beyond n (Nat.lt_of_not_le hlt),
          takeWhile_nil_of_noDigit hrest.noDigit]
        rfl
  · have hdigits : (List.replicate zeros '0' ++ run.text).takeWhile Char.isDigit =
        List.replicate zeros '0' ++ run.text := by
      rw [List.takeWhile_eq_self_iff]
      intro c hc
      rcases List.mem_append.mp hc with hc | hc
      · rw [List.eq_of_mem_replicate hc]
        rfl
      · exact run.digits c hc
    rw [Literal.lt_sumDigits_iff, hdigits, Literal.digitValue_zeros]
    rfl

/-! ## A limit of three -/

/-- A number without blanks around it. -/
def Grammar.Numeral.bare (n : Numeral) : Placed Spelling := ⟨.empty, .number n, .empty⟩

/-- The literal `-0.5e0003`. -/
def Grammar.Numeral.atThree : Numeral where
  negative := true
  whole := ⟨['0'], by simp, by simp⟩
  fraction := some ⟨['5'], by simp, by simp⟩
  exponent := some ⟨'e', [], ⟨['0', '0', '0', '3'], by simp, by simp⟩, by simp, by simp⟩
  noLeadingZero _ := rfl

/-- The literal `2e04`. -/
def Grammar.Numeral.beyondThree : Numeral where
  negative := false
  whole := ⟨['2'], by simp, by simp⟩
  fraction := none
  exponent := some ⟨'e', [], ⟨['0', '4'], by simp, by simp⟩, by simp, by simp⟩
  noLeadingZero := by simp

/-- An exponent with zeros in front that is as large as the limit, in an array and in an object, and
the next larger one. -/
theorem exponents_cannot_amplify_padded :
    let limits : ParserOptions := { maxExponent := 3 }
    let items : List Entry := [.number ⟨-5, -2⟩]
    let members : Object := ⟨[("a", .number ⟨-5, -2⟩)]⟩
    (parseEntry "[-0.5e0003]" limits = .ok (.array items) ∧
      GivenByLiterals limits "[-0.5e0003]" (.array items)) ∧
    (parseArray "[-0.5e0003]" limits = .ok items ∧
      GivenByLiterals limits "[-0.5e0003]" (.array items)) ∧
    (parseObject "\x7b\"a\":-0.5e0003\x7d" limits = .ok members ∧
      GivenByLiterals limits "\x7b\"a\":-0.5e0003\x7d" (.object members)) ∧
    Ended [','] ∧ Literal.scan 3 "2e04,".toList = .error (.exponentOutOfRange, 4) := by
  intro limits items members
  have harray : Fits limits 128 (.array .empty [Numeral.atThree.bare]) (.array items) :=
    ⟨by decide, by intro m hm; rw [List.mem_singleton.mp hm]; decide, rfl⟩
  have hobject : FitsObject limits 128 .empty
      [(⟨.empty, ⟨[.plain 'a' (by decide)]⟩, .empty⟩, Numeral.atThree.bare)] [("a", .number ⟨-5, -2⟩)] :=
    ⟨by decide, by intro m hm; rw [List.mem_singleton.mp hm]; decide, rfl⟩
  have hended : Ended [','] := by
    intro c hc
    rw [← Option.some.inj hc]
    decide
  obtain ⟨ofEntry, ofArray, ofObject, ofDocument, ofScan, -, -⟩ := exponents_cannot_amplify
  have hreadEntry : parseEntry "[-0.5e0003]" limits = .ok (.array items) :=
    (ofDocument ⟨.empty, .array .empty [Numeral.atThree.bare], .empty⟩ limits (.array items)).mpr
      harray
  have hreadArray : parseArray "[-0.5e0003]" limits = .ok items :=
    Parser.readArray_eq_ok_iff.mpr ⟨.empty, .empty, _, .empty, rfl, harray⟩
  have hreadObject : parseObject "\x7b\"a\":-0.5e0003\x7d" limits = .ok members := by
    have hmembers : members = ⟨Members.merged [("a", .number ⟨-5, -2⟩)]⟩ := by
      rw [← Members.pairs_ofPairs]
      rfl
    have hread : (Parser.ofText "\x7b\"a\":-0.5e0003\x7d" limits).readObject.1 = .ok members :=
      Parser.readObject_eq_ok_iff.mpr ⟨.empty, .empty, _, .empty, _, rfl, hobject, hmembers⟩
    rw [parseObject, hread]
  refine ⟨⟨hreadEntry, ofEntry _ _ _ hreadEntry⟩, ⟨hreadArray, ofArray _ _ _ hreadArray⟩,
    ⟨hreadObject, ofObject _ _ _ hreadObject⟩, hended, ?_⟩
  exact ofScan .beyondThree 3 [','] hended

end ExtendedJson
