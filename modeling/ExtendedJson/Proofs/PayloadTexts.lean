import Mathlib.Algebra.Group.Nat.Defs
import ExtendedJson.Entry.Extended

/-!
# The texts of payloads read back

Byte strings, dates, times and timestamps survive their texts. A number in a fixed width is read
back whatever stands behind it, because the reader looks at no more characters than were written; a
year with a sign is the one field that ends only where its digits do. Leap seconds and the years
beyond four digits need nothing else.
-/

namespace ExtendedJson

/-! ## Bytes -/

namespace Hex

theorem utf8EncodeChar_digitChar : ∀ v : Fin 16,
    String.utf8EncodeChar (Nat.digitChar v) = [UInt8.ofNat (Nat.digitChar v).toNat] := by
  decide

theorem digitValue?_digitChar : ∀ v : Fin 16,
    digitValue? (UInt8.ofNat (Nat.digitChar v).toNat) = some v.val := by
  decide

/-- The codes of the two digits of a byte. -/
def codes (byte : UInt8) : List UInt8 :=
  [UInt8.ofNat (Nat.digitChar (byte.toNat / 16)).toNat,
    UInt8.ofNat (Nat.digitChar (byte.toNat % 16)).toNat]

theorem utf8_encodeByte (byte : UInt8) :
    (encodeByte byte).flatMap String.utf8EncodeChar = codes byte := by
  have hhigh := utf8EncodeChar_digitChar ⟨byte.toNat / 16, by have := byte.toNat_lt; omega⟩
  have hlow := utf8EncodeChar_digitChar ⟨byte.toNat % 16, by omega⟩
  simp only at hhigh hlow
  rw [encodeByte, List.flatMap_cons, List.flatMap_cons, hhigh, hlow]
  rfl

theorem utf8_encode (bytes : List UInt8) :
    (encode bytes).flatMap String.utf8EncodeChar = bytes.flatMap codes := by
  rw [encode, List.flatMap_assoc]
  exact congrArg (bytes.flatMap ·) (funext utf8_encodeByte)

theorem decodePairs_codes (bytes : List UInt8) (index : Nat) :
    decodePairs index (bytes.flatMap codes) = .ok bytes := by
  induction bytes generalizing index with
  | nil => rfl
  | cons byte bytes ih =>
      have hhigh := digitValue?_digitChar ⟨byte.toNat / 16, by have := byte.toNat_lt; omega⟩
      have hlow := digitValue?_digitChar ⟨byte.toNat % 16, by omega⟩
      simp only at hhigh hlow
      have hbyte : UInt8.ofNat (16 * (byte.toNat / 16) + byte.toNat % 16) = byte := by
        rw [Nat.div_add_mod, UInt8.ofNat_toNat]
      rw [List.flatMap_cons, codes, List.cons_append, List.cons_append, List.nil_append,
        decodePairs, hhigh, hlow]
      simp only
      rw [ih, hbyte]

theorem decode_encode (bytes : List UInt8) : decode (String.ofList (encode bytes)) = .ok bytes := by
  have heven : (bytes.flatMap codes).length % 2 = 0 := by
    induction bytes with
    | nil => rfl
    | cons byte bytes ih =>
        rw [List.flatMap_cons, List.length_append, codes]
        simp only [List.length_cons, List.length_nil]
        omega
  rw [decode, String.toList_ofList, utf8_encode]
  rw [if_neg (by omega), decodePairs_codes]

end Hex

/-! ## Numbers of a fixed width -/

namespace Calendar

theorem isDigit_of_mem_padded {width n : Nat} {c : Char} (h : c ∈ padded width n) : c.isDigit := by
  rw [padded, List.leftpad, List.mem_append] at h
  rcases h with h | h
  · rw [List.eq_of_mem_replicate h]
    rfl
  · exact Nat.isDigit_of_mem_toDigits (by decide) (by decide) h

theorem ofDigitChars_padded (width n : Nat) : Nat.ofDigitChars 10 (padded width n) 0 = n := by
  rw [padded, List.leftpad, Nat.ofDigitChars_append, Nat.ofDigitChars_replicate_zero, Nat.mul_zero,
    Nat.ofDigitChars_ten_toDigits]

theorem padded_ne_nil (width n : Nat) : padded width n ≠ [] := by
  rw [padded, List.leftpad]
  simp [Nat.toDigits_ne_nil]

theorem length_padded {width n : Nat} (hwidth : 0 < width) (h : n < 10 ^ width) :
    (padded width n).length = width := by
  have := (Nat.length_toDigits_le_iff (by decide : 1 < 10) hwidth).mpr h
  rw [padded, List.length_leftpad]
  omega

theorem isBlank_of_isDigit {c : Char} (h : c.isDigit) : Text.isBlank c = false := by
  obtain ⟨hlow, hhigh⟩ := Char.isDigit_iff_toNat.mp h
  simp only [Text.isBlank, Char.reduceToNat] at hlow hhigh ⊢
  simp only [Bool.or_eq_false_iff, Bool.and_eq_false_iff, decide_eq_false_iff_not, beq_eq_false_iff_ne]
  omega

theorem exists_cons_padded (width n : Nat) :
    ∃ c rest, padded width n = c :: rest ∧ c.isDigit := by
  cases h : padded width n with
  | nil => exact absurd h (padded_ne_nil width n)
  | cons c rest => exact ⟨c, rest, rfl, isDigit_of_mem_padded (by rw [h]; exact List.mem_cons_self)⟩

theorem dropBlanks_padded (width n : Nat) (rest : List Char) :
    (padded width n ++ rest).dropWhile Text.isBlank = padded width n ++ rest := by
  obtain ⟨c, digits, hpadded, hc⟩ := exists_cons_padded width n
  rw [hpadded, List.cons_append, List.dropWhile_cons_of_neg (by rw [isBlank_of_isDigit hc]; decide)]

theorem digits_padded {width n : Nat} {run : List Char}
    (h : run.takeWhile Char.isDigit = padded width n) (text : List Char) :
    digits run text = .ok (padded width n, text.drop (padded width n).length) := by
  rw [digits, h]
  split
  · next hnil => exact absurd hnil (padded_ne_nil width n)
  · rfl

theorem takeWhile_padded (width n : Nat) :
    (padded width n).takeWhile Char.isDigit = padded width n := by
  rw [← List.append_nil (padded width n), List.takeWhile_append_of_pos fun _ => isDigit_of_mem_padded]
  rfl

/-! ## Fields -/

theorem field_padded {low high n : Nat} (hlow : low ≤ n) (hhigh : n ≤ high) (h : n < 100)
    (rest : List Char) : field low high (padded 2 n ++ rest) = .ok (n, rest) := by
  have hlength : (padded 2 n).length = 2 := length_padded (by decide) h
  have htake : (padded 2 n ++ rest).take 2 = padded 2 n := List.take_left' hlength
  rw [field, dropBlanks_padded]
  simp only [htake, digits_padded (takeWhile_padded 2 n), List.drop_left, ofDigitChars_padded]
  rw [if_pos ⟨hlow, hhigh⟩]

theorem mark_cons (c : Char) (rest : List Char) : mark c (c :: rest) = .ok ((), rest) := by
  rw [mark, if_pos rfl]

theorem within_of_le {low high n : Int} (h : low ≤ n ∧ n ≤ high) (rest : List Char) :
    within low high n rest = .ok (n, rest) := by
  rw [within, if_pos h]

theorem year_signed {sign : Char} (factor : Int)
    (hsign : sign = '-' ∧ factor = -1 ∨ sign = '+' ∧ factor = 1) {n : Nat}
    (h : -pow2 31 ≤ factor * n ∧ factor * n ≤ pow2 31 - 1) (rest : List Char) :
    year (sign :: (padded 4 n ++ '-' :: rest)) = .ok (factor * n, '-' :: rest) := by
  have hrun : (padded 4 n ++ '-' :: rest).takeWhile Char.isDigit = padded 4 n := by
    rw [List.takeWhile_append_of_pos fun _ => isDigit_of_mem_padded]
    simp
  unfold year
  rcases hsign with ⟨rfl, rfl⟩ | ⟨rfl, rfl⟩
  · rw [List.dropWhile_cons_of_neg (by decide)]
    simp only [digits_padded hrun, List.drop_left, ofDigitChars_padded]
    exact within_of_le h _
  · rw [List.dropWhile_cons_of_neg (by decide)]
    simp only [digits_padded hrun, List.drop_left, ofDigitChars_padded]
    exact within_of_le h _

theorem year_plain {n : Nat} (h : n ≤ 9999) (rest : List Char) :
    year (padded 4 n ++ rest) = .ok ((n : Int), rest) := by
  have hlength : (padded 4 n).length = 4 := length_padded (by decide) (by omega)
  have htake : (padded 4 n ++ rest).take 4 = padded 4 n := List.take_left' hlength
  have hrange : -(pow2 31 : Int) ≤ 1 * n ∧ 1 * (n : Int) ≤ pow2 31 - 1 := by
    have : (pow2 31 : Int) = 2147483648 := rfl
    omega
  obtain ⟨c, tail, hpadded, hc⟩ := exists_cons_padded 4 n
  have hcons : padded 4 n ++ rest = c :: (tail ++ rest) := by rw [hpadded, List.cons_append]
  -- A digit is neither sign, so the year is the first four characters.
  have hminus : c ≠ '-' := by rintro rfl; exact absurd hc (by decide)
  have hplus : c ≠ '+' := by rintro rfl; exact absurd hc (by decide)
  have hdigits := digits_padded (takeWhile_padded 4 n) (padded 4 n ++ rest)
  unfold year
  rw [dropBlanks_padded]
  simp only [htake]
  rw [hcons] at hdigits ⊢
  simp only [hminus, hplus, hdigits, List.cons.injEq, false_and, imp_false, not_false_eq_true,
    implies_true]
  rw [← hcons, List.drop_left, ofDigitChars_padded, within_of_le hrange, Int.one_mul]

theorem year_yearText {y : Int} (hlow : firstYear ≤ y) (hhigh : y ≤ lastYear) (rest : List Char) :
    year (yearText y ++ '-' :: rest) = .ok (y, '-' :: rest) := by
  have hbound : (pow2 31 : Int) = 2147483648 := rfl
  rw [firstYear] at hlow
  rw [lastYear] at hhigh
  unfold yearText
  split
  · next h =>
      rw [year_plain (by omega), Int.natAbs_of_nonneg h.1]
  · split
    · rw [List.cons_append, year_signed (-1) (Or.inl ⟨rfl, rfl⟩) (by omega)]
      rw [show (-1 : Int) * y.natAbs = y by omega]
    · rw [List.cons_append, year_signed 1 (Or.inr ⟨rfl, rfl⟩) (by omega)]
      rw [show (1 : Int) * y.natAbs = y by omega]

theorem fraction_padded {width n : Nat} (hwidth : 0 < width) (hnine : width ≤ 9)
    (h : n < 10 ^ width) :
    fraction ('.' :: padded width n) = .ok (n * pow10 (9 - width), []) := by
  have hlength := length_padded hwidth h
  have htake : (padded width n).take 9 = padded width n := List.take_of_length_le (by omega)
  rw [fraction, htake, digits_padded (takeWhile_padded width n)]
  simp only
  rw [ofDigitChars_padded, List.drop_length, hlength]
  rfl

theorem fraction_fractionText {nano : Nat} (h : nano < nanosPerSecond) :
    fraction (fractionText nano) = .ok (nano, []) := by
  rw [nanosPerSecond] at h
  unfold fractionText
  split
  · next hzero => rw [hzero]; rfl
  · split
    · next hmilli =>
        have hwhole : nano / 1000000 * pow10 (9 - 3) = nano := by
          rw [show pow10 (9 - 3) = 1000000 from rfl]
          omega
        rw [fraction_padded (by decide) (by decide) (by omega), hwhole]
    · split
      · next hmicro =>
          have hwhole : nano / 1000 * pow10 (9 - 6) = nano := by
            rw [show pow10 (9 - 6) = 1000 from rfl]
            omega
          rw [fraction_padded (by decide) (by decide) (by omega), hwhole]
      · rw [fraction_padded (by decide) (by decide) (by omega)]
        rw [show nano * pow10 (9 - 9) = nano from Nat.mul_one nano]

/-! ## Dates and times -/

theorem month_le {year : Int} {month day : Nat} (h : 1 ≤ day ∧ day ≤ daysInMonth year month) :
    1 ≤ month ∧ month ≤ 12 ∧ day ≤ 31 := by
  obtain ⟨hlow, hhigh⟩ := h
  unfold daysInMonth at hhigh
  split at hhigh
  all_goals first | omega | skip
  · split at hhigh <;> omega

theorem dateFields_text (d : Date) (rest : List Char) :
    dateFields (d.text ++ rest) = .ok ((d.year, d.month, d.day), rest) := by
  obtain ⟨hmonth, hmonth', hday⟩ := month_le d.day_mem
  have htext : d.text ++ rest =
      yearText d.year ++ '-' :: (padded 2 d.month ++ '-' :: (padded 2 d.day ++ rest)) := by
    simp [Date.text]
  rw [htext, dateFields, year_yearText d.year_mem.1 d.year_mem.2]
  simp only [bind, Except.bind, mark_cons]
  rw [field_padded hmonth hmonth' (by omega)]
  simp only [mark_cons]
  rw [field_padded d.day_mem.1 hday (by omega)]
  rfl

theorem timeFields_text (t : TimeOfDay) :
    timeFields t.text = .ok ((t.hour, t.minute, t.second, t.nano), []) := by
  obtain ⟨hhour, hminute, hsecond⟩ := t.clock
  have hnano := t.nano_lt
  rw [nanosPerSecond] at hnano
  rw [TimeOfDay.text, timeFields, field_padded (Nat.zero_le _) (by omega) (by omega)]
  simp only [bind, Except.bind, mark_cons]
  rw [field_padded (Nat.zero_le _) (by omega) (by omega)]
  simp only [mark_cons]
  rw [field_padded (Nat.zero_le _) (by rw [TimeOfDay.shownSecond, nanosPerSecond]; omega)
    (by rw [TimeOfDay.shownSecond, nanosPerSecond]; omega)]
  simp only
  rw [fraction_fractionText (Nat.mod_lt _ (by decide))]
  simp only [pure, Except.pure]
  by_cases hplain : t.nano < nanosPerSecond
  · have hshown : t.shownSecond = t.second := by
      rw [TimeOfDay.shownSecond, Nat.div_eq_of_lt hplain, Nat.add_zero]
    rw [if_neg (by omega), hshown, Nat.mod_eq_of_lt hplain]
  · have hshown : t.shownSecond = 60 := by
      rw [TimeOfDay.shownSecond]
      rw [nanosPerSecond] at hplain ⊢
      omega
    have hextra : t.nano % nanosPerSecond + nanosPerSecond = t.nano := by
      rw [nanosPerSecond] at hplain ⊢
      omega
    rw [if_pos hshown, hextra, show t.second = 59 by rw [nanosPerSecond] at hplain; omega]

theorem toDate_fields (d : Date) : toDate (d.year, d.month, d.day) = .ok d := by
  simp only [toDate, Date.ofParts?]
  rw [dif_pos d.year_mem, dif_pos d.day_mem]

theorem toTime_fields (t : TimeOfDay) : toTime (t.hour, t.minute, t.second, t.nano) = .ok t := by
  simp only [toTime, TimeOfDay.ofParts?]
  rw [dif_pos t.clock, dif_pos t.nano_lt]

end Calendar

open Calendar

theorem Date.read_text (d : Date) : Date.read d.text = .ok d := by
  have hfields := dateFields_text d []
  rw [List.append_nil] at hfields
  rw [Date.read, hfields]
  exact toDate_fields d

theorem TimeOfDay.read_text (t : TimeOfDay) : TimeOfDay.read t.text = .ok t := by
  rw [TimeOfDay.read, timeFields_text]
  exact toTime_fields t

theorem Timestamp.read_text (t : Timestamp) : Timestamp.read t.text = .ok t := by
  have hread : timestampWith (mark 'T') t.text = .ok t := by
    rw [timestampWith, Timestamp.text, dateFields_text]
    simp only [bind, Except.bind, mark_cons]
    rw [timeFields_text]
    simp only [Calendar.finish, List.isEmpty_nil, if_true, toDate_fields, toTime_fields]
    rfl
  rw [Timestamp.read, hread]

/-! ## Wrappers -/

namespace Entry

/-- What an extended entry is written as names that entry. -/
theorem decodeExtended_extendedText {e : Entry} {text : Option (List Char)}
    (h : e.extendedText? = some text) :
    decodeExtended e.kind (text.map String.ofList) = .ok e := by
  cases e with
  | binary payload =>
      cases Option.some.inj h
      cases payload with
      | none => rfl
      | some bytes =>
          simp only [Option.map_some, decodeExtended, kind, decodePayload, Hex.decode_encode]
          rfl
  | date payload =>
      cases Option.some.inj h
      cases payload with
      | none => rfl
      | some value =>
          simp only [Option.map_some, decodeExtended, kind, decodePayload, String.toList_ofList,
            Date.read_text]
          rfl
  | time payload =>
      cases Option.some.inj h
      cases payload with
      | none => rfl
      | some value =>
          simp only [Option.map_some, decodeExtended, kind, decodePayload, String.toList_ofList,
            TimeOfDay.read_text]
          rfl
  | timestamp payload =>
      cases Option.some.inj h
      cases payload with
      | none => rfl
      | some value =>
          simp only [Option.map_some, decodeExtended, kind, decodePayload, String.toList_ofList,
            Timestamp.read_text]
          rfl
  | null | boolean | number | string | array | object => simp [extendedText?] at h

end Entry

end ExtendedJson
