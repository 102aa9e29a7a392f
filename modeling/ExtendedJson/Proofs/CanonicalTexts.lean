import ExtendedJson.Proofs.Recognition

/-!
# One text for each extended entry

Many texts name a date, because fields may have blanks in front of them and fewer digits than are
written; bytes may be spelled in either case, and the halves of a timestamp may be joined in two ways.
Whatever text an extended entry was read from, the entry is of the kind that was asked for, its payload
exists, and the text that a writer gives it is read as that entry again.

What is read is settled by what the text consists of: the digits of the bytes, or the fields of the date
and the time, and nothing behind them. For timestamps this shows that the two readings never meet. A
`T` behind the date is no blank and no digit, so that the reading with blanks stops there.
-/

namespace ExtendedJson

/-! ## Bytes -/

namespace Hex

theorem toNat_toLower (c : Char) :
    c.toLower.toNat = if 65 ≤ c.toNat ∧ c.toNat ≤ 90 then c.toNat + 32 else c.toNat := by
  unfold Char.toLower
  have hletter : ('A'.val ≤ c.val ∧ c.val ≤ 'Z'.val) ↔ (65 ≤ c.toNat ∧ c.toNat ≤ 90) := Iff.rfl
  split
  · next h =>
      have := hletter.mp h
      rw [if_pos this]
      change (c.val + 32).toNat = _
      rw [UInt32.toNat_add]
      change (c.toNat + 32) % _ = _
      omega
  · next h => rw [if_neg (fun h' => h (hletter.mpr h'))]

theorem toNat_digitChar : ∀ v : Fin 16,
    (Nat.digitChar v).toNat = if v.val < 10 then 48 + v.val else 87 + v.val := by
  decide

/-- A character that is the digit of a value, in either case. -/
def Digit (c : Char) (v : Nat) : Prop := v < 16 ∧ c.toLower = Nat.digitChar v

theorem digit_iff {c : Char} {v : Nat} :
    Digit c v ↔ v < 16 ∧ (if 65 ≤ c.toNat ∧ c.toNat ≤ 90 then c.toNat + 32 else c.toNat) =
      if v < 10 then 48 + v else 87 + v := by
  refine and_congr_right fun hv => ?_
  rw [← toNat_digitChar ⟨v, hv⟩, ← toNat_toLower, Char.toNat_inj]

theorem digitValue?_ofNat_iff {n v : Nat} (hn : n < 256) :
    digitValue? (UInt8.ofNat n) = some v ↔
      v < 16 ∧ (if 65 ≤ n ∧ n ≤ 90 then n + 32 else n) = if v < 10 then 48 + v else 87 + v := by
  have hcode : (UInt8.ofNat n).toNat = n := by
    rw [UInt8.toNat_ofNat']
    omega
  unfold digitValue?
  simp only [hcode, Char.reduceToNat]
  split
  · rw [Option.some.injEq, if_neg (by omega)]
    split <;> omega
  · split
    · rw [Option.some.injEq, if_neg (by omega)]
      split <;> omega
    · split
      · rw [Option.some.injEq, if_pos (by omega)]
        split <;> omega
      · refine iff_of_false nofun ?_
        split <;> split <;> omega

theorem digitValue?_ofNat_of_le {n : Nat} (h : 128 ≤ n) (hn : n < 256) :
    digitValue? (UInt8.ofNat n) = none := by
  refine Option.eq_none_iff_forall_ne_some.mpr fun v hv => ?_
  have := (digitValue?_ofNat_iff hn).mp hv
  split at this <;> split at this <;> omega

/-- Whether a character is a digit can be seen from its first byte, and then there is no other. -/
theorem digitValue?_utf8 {c : Char} {byte : UInt8} {more : List UInt8}
    (h : String.utf8EncodeChar c = byte :: more) (v : Nat) :
    (digitValue? byte = some v ↔ Digit c v) ∧ (Digit c v → more = []) := by
  have hseveral (hc : 128 ≤ c.toNat) {n : Nat} (hn : 128 ≤ n ∧ n < 256)
      (hbyte : UInt8.ofNat n = byte) :
      (digitValue? byte = some v ↔ Digit c v) ∧ (Digit c v → more = []) := by
    have hnot : ¬ Digit c v := by
      rw [digit_iff]
      split <;> split <;> omega
    rw [← hbyte, digitValue?_ofNat_of_le hn.1 hn.2]
    exact ⟨iff_of_false nofun hnot, fun h => absurd h hnot⟩
  have hcode : c.val.toNat = c.toNat := rfl
  unfold String.utf8EncodeChar at h
  simp only [hcode] at h
  split at h
  · next hc =>
      obtain ⟨rfl, rfl⟩ := List.cons.inj h
      exact ⟨(digitValue?_ofNat_iff (by omega)).trans digit_iff.symm, fun _ => rfl⟩
  · split at h
    · exact hseveral (by omega) (by omega) (List.cons.inj h).1
    · split at h
      · exact hseveral (by omega) (by omega) (List.cons.inj h).1
      · exact hseveral (by omega) (by omega) (List.cons.inj h).1

theorem exists_utf8 (c : Char) : ∃ byte more, String.utf8EncodeChar c = byte :: more :=
  List.exists_cons_of_ne_nil (by
    intro h
    have := c.utf8Size_pos
    rw [← String.length_utf8EncodeChar, h] at this
    exact absurd this (by decide))

theorem ofNat_eq_iff {high low : Nat} (hhigh : high < 16) (hlow : low < 16) {byte : UInt8} :
    UInt8.ofNat (16 * high + low) = byte ↔ high = byte.toNat / 16 ∧ low = byte.toNat % 16 := by
  have hbound := byte.toNat_lt
  rw [← UInt8.toNat_inj, UInt8.toNat_ofNat']
  omega

theorem decodePairs_utf8_cons_iff {c c' : Char} {codes : List UInt8} {index : Nat}
    {bytes : List UInt8} :
    decodePairs index (String.utf8EncodeChar c ++ (String.utf8EncodeChar c' ++ codes)) = .ok bytes ↔
      ∃ byte rest, bytes = byte :: rest ∧ Digit c (byte.toNat / 16) ∧ Digit c' (byte.toNat % 16) ∧
        decodePairs (index + 2) codes = .ok rest := by
  obtain ⟨high, more, hutf8⟩ := exists_utf8 c
  obtain ⟨low, more', hutf8'⟩ := exists_utf8 c'
  have hdigit := digitValue?_utf8 hutf8
  have hdigit' := digitValue?_utf8 hutf8'
  rw [hutf8, hutf8']
  constructor
  · intro h
    cases hhigh : digitValue? high with
    | none => cases more <;> simp [decodePairs, hhigh] at h
    | some m =>
        have hm := (hdigit m).1.mp hhigh
        rw [(hdigit m).2 hm] at h
        cases hlow : digitValue? low with
        | none => simp [decodePairs, hhigh, hlow] at h
        | some n =>
            have hn := (hdigit' n).1.mp hlow
            rw [(hdigit' n).2 hn] at h
            simp only [List.cons_append, List.nil_append, decodePairs, hhigh, hlow] at h
            split at h
            · cases h
            · next rest hrest =>
                cases h
                obtain ⟨hm', hn'⟩ := (ofNat_eq_iff hm.1 hn.1).mp rfl
                exact ⟨_, rest, rfl, hm' ▸ hm, hn' ▸ hn, hrest⟩
  · rintro ⟨byte, rest, rfl, hm, hn, hrest⟩
    rw [(hdigit _).2 hm, (hdigit' _).2 hn]
    simp only [List.cons_append, List.nil_append, decodePairs, (hdigit _).1.mpr hm,
      (hdigit' _).1.mpr hn, hrest]
    rw [(ofNat_eq_iff hm.1 hn.1).mpr ⟨rfl, rfl⟩]

theorem toLower_cons_eq_encode_iff {c c' : Char} {text : List Char} {bytes : List UInt8} :
    c.toLower :: c'.toLower :: text = encode bytes ↔
      ∃ byte rest, bytes = byte :: rest ∧ Digit c (byte.toNat / 16) ∧ Digit c' (byte.toNat % 16) ∧
        text = encode rest := by
  cases bytes with
  | nil => simp [encode]
  | cons byte rest =>
      have hbound := byte.toNat_lt
      have hencode : encode (byte :: rest) = Nat.digitChar (byte.toNat / 16) ::
          Nat.digitChar (byte.toNat % 16) :: encode rest := rfl
      rw [hencode]
      simp only [List.cons.injEq, Digit]
      constructor
      · rintro ⟨hc, hc', htext⟩
        exact ⟨byte, rest, ⟨rfl, rfl⟩, ⟨by omega, hc⟩, ⟨by omega, hc'⟩, htext⟩
      · rintro ⟨_, _, ⟨rfl, rfl⟩, ⟨-, hc⟩, ⟨-, hc'⟩, htext⟩
        exact ⟨hc, hc', htext⟩

/-- Characters are decoded just when they are the digits of the bytes, in either case. -/
theorem decodePairs_utf8_eq_ok_iff (text : List Char) (index : Nat) (bytes : List UInt8) :
    decodePairs index (text.flatMap String.utf8EncodeChar) = .ok bytes ↔
      text.map Char.toLower = encode bytes := by
  match text with
  | [] => cases bytes <;> simp [decodePairs, encode, encodeByte]
  | [c] =>
      obtain ⟨byte, more, hutf8⟩ := exists_utf8 c
      rw [List.flatMap_singleton, hutf8]
      refine iff_of_false (fun h => ?_) (fun h => ?_)
      · cases more with
        | nil => cases h
        | cons second more =>
            cases hbyte : digitValue? byte with
            | none => simp [decodePairs, hbyte] at h
            | some v =>
                obtain ⟨hdigit, hmore⟩ := digitValue?_utf8 hutf8 v
                cases hmore (hdigit.mp hbyte)
      · cases bytes <;> simp [encode, encodeByte] at h
  | c :: c' :: text =>
      rw [List.flatMap_cons, List.flatMap_cons, decodePairs_utf8_cons_iff, List.map_cons,
        List.map_cons, toLower_cons_eq_encode_iff]
      simp only [decodePairs_utf8_eq_ok_iff text]

theorem length_of_decodePairs {index : Nat} {codes bytes : List UInt8}
    (h : decodePairs index codes = .ok bytes) : codes.length = 2 * bytes.length := by
  fun_induction decodePairs index codes generalizing bytes with
  | case1 index =>
      cases h
      rfl
  | case6 index high low rest m hm n hn decoded hdecoded ih =>
      cases h
      have := ih hdecoded
      simp only [List.length_cons]
      omega
  | _ => cases h

theorem decode_eq_ok_iff {text : String} {bytes : List UInt8} :
    decode text = .ok bytes ↔ text.toList.map Char.toLower = encode bytes := by
  rw [← decodePairs_utf8_eq_ok_iff text.toList 0, decode]
  split
  · next hodd =>
      refine iff_of_false (by simp) fun h => ?_
      have := length_of_decodePairs h
      omega
  · rfl

end Hex

/-! ## Fields -/

namespace Calendar

variable {text : List Char}

theorem bind_eq_ok_iff {α β : Type} {first : Except Fault α} {next : α → Except Fault β} {b : β} :
    (first >>= next) = .ok b ↔ ∃ a, first = .ok a ∧ next a = .ok b := by
  cases first with
  | error fault => exact iff_of_false nofun nofun
  | ok a => exact ⟨fun h => ⟨a, rfl, h⟩, fun ⟨_, ha, h⟩ => by cases ha; exact h⟩

theorem finish_eq_ok_iff {u : Unit} : finish text = .ok u ↔ text = [] := by
  cases text <;> simp [finish]

theorem toDate_eq_ok_iff {fields : Int × Nat × Nat} {d : Date} :
    toDate fields = .ok d ↔ fields = (d.year, d.month, d.day) := by
  constructor
  · intro h
    unfold toDate Date.ofParts? at h
    by_cases hyear : firstYear ≤ fields.1 ∧ fields.1 ≤ lastYear
    · by_cases hday : 1 ≤ fields.2.2 ∧ fields.2.2 ≤ daysInMonth fields.1 fields.2.1
      · rw [dif_pos hyear, dif_pos hday] at h
        cases h
        rfl
      · simp [hday] at h
    · simp [hyear] at h
  · rintro rfl
    exact toDate_fields d

theorem toTime_eq_ok_iff {fields : Nat × Nat × Nat × Nat} {t : TimeOfDay} :
    toTime fields = .ok t ↔ fields = (t.hour, t.minute, t.second, t.nano) := by
  obtain ⟨hour, minute, second, nano⟩ := fields
  constructor
  · intro h
    simp only [toTime, TimeOfDay.ofParts?] at h
    by_cases hclock : hour < 24 ∧ minute < 60 ∧ second < 60
    · by_cases hnano : nano < nanosPerSecond ∨ second = 59 ∧ nano < 2 * nanosPerSecond
      · rw [dif_pos hclock, dif_pos hnano] at h
        cases h
        rfl
      · rw [dif_pos hclock, dif_neg hnano] at h
        cases h
    · rw [dif_neg hclock] at h
      cases h
  · intro h
    rw [h]
    exact toTime_fields t

theorem timestampWith_eq_ok_iff {joint : List Char → Step Unit} {t : Timestamp} :
    timestampWith joint text = .ok t ↔
      ∃ behindDate behindJoint,
        dateFields text = .ok ((t.date.year, t.date.month, t.date.day), behindDate) ∧
        joint behindDate = .ok ((), behindJoint) ∧
        timeFields behindJoint =
          .ok ((t.time.hour, t.time.minute, t.time.second, t.time.nano), []) := by
  constructor
  · intro h
    obtain ⟨⟨dateParts, behindDate⟩, hdate, h⟩ := bind_eq_ok_iff.mp h
    obtain ⟨⟨_, behindJoint⟩, hjoint, h⟩ := bind_eq_ok_iff.mp h
    obtain ⟨⟨timeParts, behindTime⟩, htime, h⟩ := bind_eq_ok_iff.mp h
    obtain ⟨_, hend, h⟩ := bind_eq_ok_iff.mp h
    obtain ⟨date, hdateParts, h⟩ := bind_eq_ok_iff.mp h
    obtain ⟨time, htimeParts, h⟩ := bind_eq_ok_iff.mp h
    cases h
    cases toDate_eq_ok_iff.mp hdateParts
    cases toTime_eq_ok_iff.mp htimeParts
    cases finish_eq_ok_iff.mp hend
    exact ⟨_, _, hdate, hjoint, htime⟩
  · rintro ⟨behindDate, behindJoint, hdate, hjoint, htime⟩
    refine bind_eq_ok_iff.mpr ⟨_, hdate, bind_eq_ok_iff.mpr ⟨_, hjoint, bind_eq_ok_iff.mpr
      ⟨_, htime, bind_eq_ok_iff.mpr ⟨(), rfl, bind_eq_ok_iff.mpr ⟨_, toDate_fields _,
        bind_eq_ok_iff.mpr ⟨_, toTime_fields _, rfl⟩⟩⟩⟩⟩⟩

theorem mark_eq_ok_iff {c : Char} {u : Unit} {rest : List Char} :
    mark c text = .ok (u, rest) ↔ text = c :: rest := by
  cases text with
  | nil => exact iff_of_false nofun nofun
  | cons first behind =>
      rw [mark]
      split
      · next hfirst => simp [hfirst]
      · next hfirst => simp [hfirst]

/-- Behind a date a `T` begins no time of day. -/
theorem timeFields_T (rest : List Char) : timeFields ('T' :: rest) = .error .invalid := by
  have hfield : field 0 23 ('T' :: rest) = .error .invalid := by
    rw [field, List.dropWhile_cons_of_neg (by decide)]
    rfl
  rw [timeFields, hfield]
  rfl

theorem timestampWith_blanks_of_mark {t : Timestamp}
    (h : timestampWith (mark 'T') text = .ok t) : timestampWith blanks text = .error .invalid := by
  obtain ⟨behind, rest, hdate, hjoint, -⟩ := timestampWith_eq_ok_iff.mp h
  rw [mark_eq_ok_iff.mp hjoint] at hdate
  have hblanks : blanks ('T' :: rest) = .ok ((), 'T' :: rest) := by
    rw [blanks, List.dropWhile_cons_of_neg (by decide)]
  simp only [timestampWith, hdate, hblanks, bind, Except.bind]
  rw [timeFields_T]

theorem timestampWith_mark_text (t : Timestamp) : timestampWith (mark 'T') t.text = .ok t :=
  timestampWith_eq_ok_iff.mpr
    ⟨_, _, dateFields_text t.date _, mark_cons 'T' _, timeFields_text t.time⟩

end Calendar

open Calendar

variable {text : List Char}

theorem Date.read_eq_ok_iff {d : Date} :
    Date.read text = .ok d ↔ dateFields text = .ok ((d.year, d.month, d.day), []) := by
  constructor
  · intro h
    obtain ⟨⟨parts, rest⟩, hfields, h⟩ := bind_eq_ok_iff.mp h
    obtain ⟨_, hend, h⟩ := bind_eq_ok_iff.mp h
    cases toDate_eq_ok_iff.mp h
    cases finish_eq_ok_iff.mp hend
    exact hfields
  · intro h
    exact bind_eq_ok_iff.mpr ⟨_, h, bind_eq_ok_iff.mpr ⟨(), rfl, toDate_fields d⟩⟩

theorem TimeOfDay.read_eq_ok_iff {t : TimeOfDay} :
    TimeOfDay.read text = .ok t ↔
      timeFields text = .ok ((t.hour, t.minute, t.second, t.nano), []) := by
  constructor
  · intro h
    obtain ⟨⟨parts, rest⟩, hfields, h⟩ := bind_eq_ok_iff.mp h
    obtain ⟨_, hend, h⟩ := bind_eq_ok_iff.mp h
    cases toTime_eq_ok_iff.mp h
    cases finish_eq_ok_iff.mp hend
    exact hfields
  · intro h
    exact bind_eq_ok_iff.mpr ⟨_, h, bind_eq_ok_iff.mpr ⟨(), rfl, toTime_fields t⟩⟩

/-- A text names a timestamp when a `T` or blanks stand between the fields of its halves. -/
theorem Timestamp.read_eq_ok_iff {t : Timestamp} :
    Timestamp.read text = .ok t ↔
      ∃ behind inner, dateFields text = .ok ((t.date.year, t.date.month, t.date.day), behind) ∧
        (behind = 'T' :: inner ∨ behind.dropWhile Text.isBlank = inner) ∧
        timeFields inner = .ok ((t.time.hour, t.time.minute, t.time.second, t.time.nano), []) := by
  constructor
  · intro h
    unfold Timestamp.read at h
    split at h
    · next u hmark =>
        cases h
        obtain ⟨behind, inner, hdate, hjoint, htime⟩ := timestampWith_eq_ok_iff.mp hmark
        exact ⟨behind, inner, hdate, .inl (mark_eq_ok_iff.mp hjoint), htime⟩
    · obtain ⟨behind, inner, hdate, hjoint, htime⟩ := timestampWith_eq_ok_iff.mp h
      cases hjoint
      exact ⟨behind, _, hdate, .inr rfl, htime⟩
  · rintro ⟨behind, inner, hdate, hjoint | hjoint, htime⟩
    · have hmark : timestampWith (mark 'T') text = .ok t :=
        timestampWith_eq_ok_iff.mpr ⟨_, _, hdate, mark_eq_ok_iff.mpr hjoint, htime⟩
      rw [Timestamp.read, hmark]
    · have hblanks : timestampWith blanks text = .ok t :=
        timestampWith_eq_ok_iff.mpr ⟨_, inner, hdate, by rw [blanks, hjoint], htime⟩
      unfold Timestamp.read
      split
      · next hmark => cases (timestampWith_blanks_of_mark hmark).symm.trans hblanks
      · exact hblanks

/-! ## Payloads -/

namespace Payload

/-- What a text has to consist of to name a payload. -/
def NamedBy (text : List Char) : Payload → Prop
  | .binary bytes => text.map Char.toLower = Hex.encode bytes
  | .date d => dateFields text = .ok ((d.year, d.month, d.day), [])
  | .time t => timeFields text = .ok ((t.hour, t.minute, t.second, t.nano), [])
  | .timestamp t =>
    ∃ behind inner, dateFields text = .ok ((t.date.year, t.date.month, t.date.day), behind) ∧
      (behind = 'T' :: inner ∨ behind.dropWhile Text.isBlank = inner) ∧
      timeFields inner = .ok ((t.time.hour, t.time.minute, t.time.second, t.time.nano), [])
  | _ => False

/-- A payload that an extended entry can have: any bytes, and days and times that exist. -/
def Valid : Payload → Prop
  | .binary _ => True
  | .date d => d.Valid
  | .time t => t.Valid
  | .timestamp t => t.date.Valid ∧ t.time.Valid
  | _ => False

theorem NamedBy.valid {payload : Payload} (h : payload.NamedBy text) : payload.Valid := by
  cases payload with
  | binary bytes => exact trivial
  | date d => exact d.valid
  | time t => exact t.valid
  | timestamp t => exact ⟨t.date.valid, t.time.valid⟩
  | object | array | string | number | boolean => exact h

end Payload

namespace Entry

theorem decodePayload_eq_ok_iff {kind : Kind} {text : String} {payload : Payload} :
    decodePayload kind text = .ok payload ↔ payload.kind = kind ∧ payload.NamedBy text.toList := by
  constructor
  · intro h
    refine ⟨Grammar.kind_of_decodePayload h, ?_⟩
    cases kind with
    | binary =>
        simp only [decodePayload] at h
        split at h
        · next hread => cases h; exact Hex.decode_eq_ok_iff.mp hread
        · cases h
    | date =>
        simp only [decodePayload] at h
        split at h
        · next hread => cases h; exact Date.read_eq_ok_iff.mp hread
        · cases h
    | time =>
        simp only [decodePayload] at h
        split at h
        · next hread => cases h; exact TimeOfDay.read_eq_ok_iff.mp hread
        · cases h
    | timestamp =>
        simp only [decodePayload] at h
        split at h
        · next hread => cases h; exact Timestamp.read_eq_ok_iff.mp hread
        · cases h
    | null | object | array | string | number | boolean => cases h
  · rintro ⟨rfl, hnamed⟩
    cases payload with
    | binary bytes => simp only [Payload.kind, decodePayload, Hex.decode_eq_ok_iff.mpr hnamed]
    | date d => simp only [Payload.kind, decodePayload, Date.read_eq_ok_iff.mpr hnamed]
    | time t => simp only [Payload.kind, decodePayload, TimeOfDay.read_eq_ok_iff.mpr hnamed]
    | timestamp t => simp only [Payload.kind, decodePayload, Timestamp.read_eq_ok_iff.mpr hnamed]
    | object | array | string | number | boolean => exact hnamed.elim

theorem exists_payload_of_decodeExtended {kind : Kind} {text : String} {e : Entry}
    (h : decodeExtended kind (some text) = .ok e) :
    ∃ payload : Payload, payload.toEntry = e ∧ payload.kind = kind ∧
      payload.NamedBy text.toList := by
  simp only [decodeExtended] at h
  split at h
  · cases h
  · next payload hpayload =>
      obtain ⟨hkind, hnamed⟩ := decodePayload_eq_ok_iff.mp hpayload
      rw [withKind, if_pos hkind] at h
      cases h
      exact ⟨payload, rfl, hkind, hnamed⟩

/-! ## Canonical texts -/

theorem payload?_toEntry (payload : Payload) : payload.toEntry.payload? = some payload := by
  cases payload <;> rfl

theorem extendedText?_toEntry {payload : Payload} (h : payload.Valid) :
    ∃ written, payload.toEntry.extendedText? = some (some written) := by
  cases payload with
  | binary | date | time | timestamp => exact ⟨_, rfl⟩
  | object | array | string | number | boolean => exact h.elim

/-- Whatever its options, a writer gives an extended entry its text under its marker. -/
theorem write_of_extendedText {e : Entry} {text : Option (List Char)}
    (h : e.extendedText? = some text) :
    ∃ marker, e.kind.marker? = some marker ∧
      ∀ options, e.write options = .ok (String.ofList (wrapperText marker text)) := by
  have hleaf {marker : String} (hlayout : e.layout 0 = [.lexeme (wrapperText marker text)])
      (hplain : e.Unambiguous) (hdepth : e.writingDepth = 0) (options : WriterOptions) :
      e.write options = .ok (String.ofList (wrapperText marker text)) := by
    refine write_eq_ok_iff.mpr ⟨hplain, hdepth ▸ Nat.zero_le _, ?_⟩
    rw [hlayout]
    exact congrArg String.ofList (List.append_nil _).symm
  cases e with
  | binary | date | time | timestamp =>
      cases h
      exact ⟨_, rfl, hleaf rfl ((everywhere_leaf_iff (by simp) (by simp)).mpr trivial) rfl⟩
  | null | boolean | number | string | array | object => simp [extendedText?] at h

theorem exists_extendedText {e : Entry} (h : e.kind.isExtended = true) :
    ∃ text, e.extendedText? = some text := by
  cases e with
  | binary | date | time | timestamp => exact ⟨_, rfl⟩
  | null | boolean | number | string | array | object => cases h

/-- What a text is decoded to is of the kind that was asked for, holds what the text names, and is
what its own text is decoded to. Every extended entry has a text, which any writer puts under its
marker, and is what that text is decoded to. Of the two readings of a timestamp the one with blanks
gives up wherever the one with a `T` succeeds, as it does on the text of every timestamp. -/
theorem extended_texts_canonical :
    (∀ kind text e, decodeExtended kind (some text) = .ok e →
      e.kind = kind ∧
      (∃ payload, e.payload? = some payload ∧ payload.Valid ∧ payload.NamedBy text.toList) ∧
      ∃ written, e.extendedText? = some (some written) ∧
        decodeExtended kind (some (String.ofList written)) = .ok e) ∧
    (∀ e : Entry, e.kind.isExtended = true →
      ∃ marker text, e.kind.marker? = some marker ∧ e.extendedText? = some text ∧
        (∀ options, e.write options = .ok (String.ofList (wrapperText marker text))) ∧
        decodeExtended e.kind (text.map String.ofList) = .ok e) ∧
    (∀ text t, timestampWith (mark 'T') text = .ok t →
      timestampWith blanks text = .error .invalid) ∧
    ∀ t : Timestamp, timestampWith (mark 'T') t.text = .ok t := by
  refine ⟨fun kind text e h => ?_, fun e hextended => ?_,
    fun _ _ => timestampWith_blanks_of_mark, timestampWith_mark_text⟩
  · obtain ⟨payload, rfl, hkind, hnamed⟩ := exists_payload_of_decodeExtended h
    have hpayload := payload?_toEntry payload
    have hsame := kind_of_decodeExtended h
    obtain ⟨written, hwritten⟩ := extendedText?_toEntry hnamed.valid
    refine ⟨hsame, ⟨payload, hpayload, hnamed.valid, hnamed⟩, written, hwritten, ?_⟩
    rw [← hsame]
    exact decodeExtended_extendedText hwritten
  · obtain ⟨text, htext⟩ := exists_extendedText hextended
    obtain ⟨marker, hmarker, hwrite⟩ := write_of_extendedText htext
    exact ⟨marker, text, hmarker, htext, hwrite, decodeExtended_extendedText htext⟩

/-- A leap second behind blanks, which its own text has a `T` for; and the first day that there is. -/
theorem extended_texts_canonical_extremes :
    let t : Timestamp :=
      ⟨⟨2016, 12, 31, by decide, by decide⟩, ⟨23, 59, 59, 1500000000, by decide, by decide⟩⟩
    let first : Date := ⟨-262143, 1, 1, by decide, by decide⟩
    (decodeExtended .timestamp (some "2016-12-31  23:59:60.5") = .ok (.timestamp (some t)) ∧
      decodeExtended .timestamp (some "2016-12-31T23:59:60.500") = .ok (.timestamp (some t))) ∧
    ((date (some first)).kind.isExtended = true ∧
      decodeExtended .date (some "-262143-01-01") = .ok (.date (some first))) ∧
    (timestampWith (mark 'T') t.text = .ok t ∧ timestampWith blanks t.text = .error .invalid) := by
  intro t first
  obtain ⟨hdecoded, hextended, hapart, hmark⟩ := extended_texts_canonical
  have hread : Timestamp.read "2016-12-31  23:59:60.5".toList = .ok t := by decide +kernel
  have hwritten : String.ofList t.text = "2016-12-31T23:59:60.500" := by decide +kernel
  have hfirst : String.ofList first.text = "-262143-01-01" := by decide +kernel
  have hblanks : decodeExtended .timestamp (some "2016-12-31  23:59:60.5") =
      .ok (.timestamp (some t)) := by
    simp only [decodeExtended, decodePayload, hread]
    rfl
  obtain ⟨-, -, written, htext, hagain⟩ := hdecoded _ _ _ hblanks
  obtain ⟨marker, text, -, htext', -, hdate⟩ := hextended (date (some first)) rfl
  cases htext
  cases htext'
  rw [hwritten] at hagain
  rw [Option.map_some, Option.map_some, hfirst] at hdate
  exact ⟨⟨hblanks, hagain⟩, ⟨rfl, hdate⟩, hmark t, hapart _ t (hmark t)⟩

end Entry

end ExtendedJson
