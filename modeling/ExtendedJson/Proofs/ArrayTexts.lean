import ExtendedJson.Value.Text
import ExtendedJson.Proofs.CompactText
import ExtendedJson.Proofs.RowStorage

/-!
# Arrays as they are shown and as they are stored

The text of an array is put together from the texts of its items, and those are the texts of the
items by themselves, but for strings, which are quoted. So an array is shown as the document that it
is stored as just when each of its leaves is. Dates, times, timestamps and byte strings are not:
they are shown bare, and stored in a wrapper. Doubles are, unless they are integral and their
shortest digits, with the sign of zero, are not the digits of the integer.

That no two differences make up for each other takes what `CompactText` knows of texts: where an
entry ends in a text does not depend on what follows, and a bare text never begins like a wrapper.
-/

namespace ExtendedJson

open Grammar

/-! ## Texts that end alike -/

/-- Where two texts go on to one text, what follows the two is one text as well. -/
def EndAlike (s t : List Char) : Prop :=
  ∀ x y, Stops x → Stops y → s ++ x = t ++ y → x = y

theorem EndAlike.refl (s : List Char) : EndAlike s s :=
  fun _ _ _ _ h => List.append_cancel_left h

/-- A text in braces is no continuation of one that begins otherwise. -/
theorem EndAlike.of_brace {s tail : List Char} (h : s.head? ≠ some '\x7b') :
    EndAlike s ('\x7b' :: tail) := by
  intro x y hx _ heq
  cases s with
  | nil =>
      have hbrace : '\x7b' ∈ x.head? := by
        rw [show x = _ from heq]
        rfl
      rcases hx _ hbrace with hc | hc | hc <;> exact absurd hc (by decide)
  | cons c s => exact absurd (congrArg some (List.cons.inj heq).1) h

/-- Rows that end alike one by one are found one by one. -/
theorem listed_endAlike {shown stored : List (List Char)} (h : List.Forall₂ EndAlike shown stored) :
    ∀ {x y : List Char}, listed shown ++ ']' :: x = listed stored ++ ']' :: y →
      shown = stored ∧ x = y := by
  induction h with
  | nil => exact fun heq => ⟨rfl, (List.cons.inj heq).2⟩
  | @cons s t shown stored hfirst hrest ih =>
      intro x y heq
      -- behind a first row stands a comma or the bracket, and no text goes on over either
      rw [listed_eq_behindRow, listed_eq_behindRow] at heq
      have hbehind := hfirst _ _ (stops_behindRow (.inl rfl) x shown)
        (stops_behindRow (.inl rfl) y stored) heq
      have hst : s = t := by
        rw [hbehind] at heq
        exact List.append_cancel_right heq
      cases hrest with
      | nil => exact ⟨by rw [hst], (List.cons.inj hbehind).2⟩
      | cons _ _ =>
          obtain ⟨hlater, hxy⟩ := ih (List.cons.inj hbehind).2
          exact ⟨by rw [hst, hlater], hxy⟩

/-! ## Bare texts -/

theorem head?_dateText (d : Date) : d.text.head? ≠ some '\x7b' := by
  unfold Date.text Calendar.yearText
  obtain ⟨c, tail, htext, hdigit⟩ := Calendar.exists_cons_padded 4 d.year.natAbs
  split
  · rw [htext]
    rintro ⟨⟩
    exact absurd hdigit (by decide)
  · split <;> simp

theorem head?_timeText (t : TimeOfDay) : t.text.head? ≠ some '\x7b' := by
  unfold TimeOfDay.text
  obtain ⟨c, tail, htext, hdigit⟩ := Calendar.exists_cons_padded 2 t.hour
  rw [htext]
  rintro ⟨⟩
  exact absurd hdigit (by decide)

theorem head?_timestampText (t : Timestamp) : t.text.head? ≠ some '\x7b' := by
  have hdate := head?_dateText t.date
  unfold Timestamp.text
  cases htext : t.date.text with
  | nil => simp
  | cons c tail =>
      rw [htext] at hdate
      exact hdate

theorem head?_hexText (bytes : List UInt8) : (Hex.encode bytes).head? ≠ some '\x7b' := by
  cases bytes with
  | nil => simp [Hex.encode]
  | cons byte bytes => simp [Hex.encode, Hex.encodeByte]

theorem head?_payloadText {α : Type} {text : α → List Char}
    (h : ∀ payload, (text payload).head? ≠ some '\x7b') (payload : Option α) :
    (Value.payloadText text payload).head? ≠ some '\x7b' := by
  cases payload with
  | none => simp [Value.payloadText]
  | some payload => exact h payload

/-! ## Doubles -/

namespace Binary64

variable {x : Binary64}

theorem isIntegral_of_isZero (h : x.isZero = true) : x.isIntegral = true := by
  have hmagnitude : x.magnitude = 0 := by simpa [isZero] using h
  simp [isIntegral, significand, hmagnitude]

theorem not_isNaN_of_isFinite (h : x.isFinite = true) : x.isNaN = false ∧ x.isInfinite = false := by
  simp only [isFinite, decide_eq_true_eq] at h
  simp only [isNaN, isInfinite, decide_eq_false_iff_not, beq_eq_false_iff_ne]
  omega

theorem text_of_isFinite (h : x.isFinite = true) :
    x.text = if x.isZero ∧ x.negative then ['-', '0'] else x.shortest.plain := by
  obtain ⟨hnan, hinfinite⟩ := not_isNaN_of_isFinite h
  rw [text, hnan, hinfinite]
  rfl

theorem isFinite_of_toDecimal {d : Decimal} (h : x.toDecimal? = some d) : x.isFinite = true := by
  rw [← isSome_toDecimal?, h]
  rfl

theorem mem_text (h : x.isFinite = true) {c : Char} (hc : c ∈ x.text) :
    c = '-' ∨ c = '.' ∨ c.isDigit := by
  rw [text_of_isFinite h] at hc
  split at hc
  · rcases List.mem_cons.mp hc with rfl | hc
    · exact .inl rfl
    · rw [List.mem_singleton.mp hc]
      exact .inr (.inr rfl)
  · exact Decimal.mem_plain hc

theorem text_eq_plain_iff {d : Decimal} (h : x.toDecimal? = some d) :
    x.text = d.plain ↔ (x.isIntegral = true → x.text = (Decimal.ofInt x.truncate).plain) := by
  have hfinite := isFinite_of_toDecimal h
  rw [toDecimal?, hfinite] at h
  cases hintegral : x.isIntegral with
  | true =>
      rw [hintegral] at h
      cases h
      simp
  | false =>
      rw [hintegral] at h
      cases h
      refine iff_of_true ?_ (by simp)
      have hzero : ¬ x.isZero = true := fun hzero => by
        rw [isIntegral_of_isZero hzero] at hintegral
        cases hintegral
      rw [text_of_isFinite hfinite, if_neg fun h => hzero h.1]

end Binary64

/-! ## Values -/

namespace Value

/-- Whether a value is shown in an array as it is stored there. -/
def ShownAsStored : Value → Prop
  | .date _ | .time _ | .timestamp _ | .binary _ => False
  | .double x => x.isIntegral = true → x.text = (Decimal.ofInt x.truncate).plain
  | _ => True

instance (v : Value) : Decidable v.ShownAsStored :=
  match v with
  | .date _ | .time _ | .timestamp _ | .binary _ => .isFalse id
  | .double x =>
    inferInstanceAs (Decidable (x.isIntegral = true → x.text = (Decimal.ofInt x.truncate).plain))
  | .boolean _ | .decimal _ | .integer _ | .long _ | .string _ | .array _ | .object _ =>
    .isTrue trivial

/-- The text that a value has as an item ends like the one that it is stored as, and is that one
just when all leaves of the value are shown as they are stored. -/
def Displayed (v : Value) (e : Entry) : Prop :=
  ∃ shown, itemText? v.text? v = some shown ∧ EndAlike shown e.compactText ∧
    (shown = e.compactText ↔ ∀ leaf ∈ v.leaves, leaf.ShownAsStored)

end Value

/-- What a writer with the default options writes. -/
def Entry.Writable (e : Entry) : Prop := e.Unambiguous ∧ e.writingDepth ≤ 512

theorem Entry.Writable.write_eq {e : Entry} (h : e.Writable) :
    e.write = .ok (String.ofList e.compactText) := by
  rw [write_eq_ok_iff, renderPieces_layout rfl]
  exact ⟨h.1, h.2, rfl⟩

theorem Entry.Writable.items {items : List Entry} (h : (array items).Writable) :
    ∀ item ∈ items, item.Writable := by
  intro item hitem
  have hne : items ≠ [] := List.ne_nil_of_mem hitem
  have hlevels : 0 + 1 ≤ 512 ∧ ∀ item ∈ items, 0 + 1 + depthWith 0 item ≤ 512 :=
    (level_add_depth_array_le_iff hne).mp (by rw [Nat.zero_add]; exact h.2)
  have hdepth := hlevels.2 item hitem
  exact ⟨unambiguous_array_iff.mp h.1 item hitem, by rw [writingDepth]; omega⟩

namespace Value

theorem Displayed.of_shown {v : Value} {e : Entry} (hleaf : ∀ items, v ≠ array (some items))
    (hshown : v.ShownAsStored) (htext : itemText? v.text? v = some e.compactText) :
    Displayed v e := by
  refine ⟨_, htext, .refl _, iff_of_true rfl ?_⟩
  rw [leaves]
  · exact List.forall_mem_singleton.mpr hshown
  · exact hleaf

/-- What is shown bare is not what is stored in a wrapper. -/
theorem Displayed.of_bare {v : Value} {e : Entry} (hleaf : ∀ items, v ≠ array (some items))
    (hshown : ¬ v.ShownAsStored) {text tail : List Char} (htext : itemText? v.text? v = some text)
    (hbare : text.head? ≠ some '\x7b') (hstored : e.compactText = '\x7b' :: tail) :
    Displayed v e := by
  refine ⟨text, htext, hstored ▸ .of_brace hbare, iff_of_false ?_ ?_⟩
  · rintro rfl
    rw [hstored] at hbare
    exact hbare rfl
  · rw [leaves]
    · exact fun h => hshown (List.forall_mem_singleton.mp h)
    · exact hleaf

theorem displayed_leaf {v : Value} {e : Entry} (hleaf : ∀ items, v ≠ array (some items))
    (h : v.toEntry = .ok e) (hwritable : e.Writable) : Displayed v e := by
  cases v with
  | boolean value =>
      cases h
      exact .of_shown hleaf trivial rfl
  | decimal d =>
      cases h
      exact .of_shown hleaf trivial rfl
  | integer n | long n =>
      cases h
      exact .of_shown hleaf trivial rfl
  | double x =>
      obtain ⟨d, rfl, hd⟩ := ofBinary64_eq_ok h
      refine ⟨x.text, rfl, fun _ _ hx hy heq => ?_, ?_⟩
      · exact (Decimal.numeric_split (fun _ => x.mem_text (Binary64.isFinite_of_toDecimal hd))
          (fun _ => Decimal.mem_plain) hx hy heq).2
      · rw [leaves]
        · rw [List.forall_mem_singleton]
          exact Binary64.text_eq_plain_iff hd
        · exact hleaf
  | date payload =>
      cases h
      exact .of_bare hleaf id rfl (head?_payloadText head?_dateText payload) rfl
  | time payload =>
      cases h
      exact .of_bare hleaf id rfl (head?_payloadText head?_timeText payload) rfl
  | timestamp payload =>
      cases h
      exact .of_bare hleaf id rfl (head?_payloadText head?_timestampText payload) rfl
  | binary payload =>
      cases h
      exact .of_bare hleaf id rfl (head?_payloadText head?_hexText payload) rfl
  | string payload =>
      cases payload <;> cases h <;> exact .of_shown hleaf trivial rfl
  | array payload =>
      cases payload with
      | none =>
          cases h
          exact .of_shown hleaf trivial rfl
      | some items => exact absurd rfl (hleaf items)
  | object payload =>
      cases payload with
      | none =>
          cases h
          exact .of_shown hleaf trivial rfl
      | some members =>
          cases h
          -- an object is shown as the writer gives it, and shows nothing where that one fails
          refine .of_shown hleaf trivial ?_
          rw [text?, hwritable.write_eq, itemText?]
          · simp
          · simp

/-! ## Arrays -/

theorem itemsText?_eq {values : List Value} {texts : List (List Char)}
    (h : List.Forall₂ (fun v text => itemText? v.text? v = some text) values texts) :
    ∀ separator, itemsText? separator values =
      some (if texts = [] then [] else separator ++ listed texts) := by
  induction h with
  | nil => exact fun separator => rfl
  | @cons v text values texts hfirst _ ih =>
      intro separator
      rw [itemsText?, hfirst, ih]
      cases texts with
      | nil => simp [listed]
      | cons second texts => simp [listed_cons text]

theorem exists_texts {values : List Value} {items : List Entry}
    (h : List.Forall₂ Displayed values items) :
    ∃ texts, List.Forall₂ (fun v text => itemText? v.text? v = some text) values texts ∧
      List.Forall₂ EndAlike texts (items.map Entry.compactText) ∧
      (texts = items.map Entry.compactText ↔
        ∀ v ∈ values, ∀ leaf ∈ v.leaves, leaf.ShownAsStored) := by
  induction h with
  | nil => exact ⟨[], .nil, .nil, by simp⟩
  | cons hfirst _ ih =>
      obtain ⟨text, htext, hend, hsame⟩ := hfirst
      obtain ⟨texts, htexts, hends, hall⟩ := ih
      refine ⟨text :: texts, .cons htext htexts, .cons hend hends, ?_⟩
      rw [List.map_cons, List.cons.injEq, hsame, hall, List.forall_mem_cons]

/-- An array is displayed as its items are: the brackets and commas are those of the document. -/
theorem displayed_array {values : List Value} {items : List Entry}
    (h : List.Forall₂ Displayed values items) : Displayed (array (some values)) (.array items) := by
  obtain ⟨texts, htexts, hends, hall⟩ := exists_texts h
  have hlisted : (if texts = [] then [] else [] ++ listed texts) = listed texts := by
    cases texts <;> simp [listed]
  refine ⟨'[' :: (listed texts ++ [']']), ?_, fun x y _ _ heq => ?_, ?_⟩
  · rw [text?, itemsText?_eq htexts, hlisted]
    rfl
  · rw [Entry.compactText_array, List.cons_append, List.cons_append, List.append_assoc,
      List.append_assoc] at heq
    exact (listed_endAlike hends (List.cons.inj heq).2).2
  · rw [forall_leaves_array_iff, ← hall, Entry.compactText_array]
    constructor
    · exact fun heq => (listed_endAlike (x := []) (y := []) hends (List.cons.inj heq).2).1
    · rintro rfl
      rfl

/-- By induction on the value along the entry that it is stored as. -/
theorem displayed {v : Value} {e : Entry} (h : v.toEntry = .ok e) : e.Writable → Displayed v e := by
  refine toEntry_induction (P := fun v e => e.Writable → Displayed v e)
    (fun v e hleaf h => displayed_leaf hleaf h) ?_ h
  intro values items h hwritable
  have hitems := hwritable.items
  refine displayed_array ?_
  clear hwritable
  induction h with
  | nil => exact .nil
  | cons hfirst _ ih =>
      rw [List.forall_mem_cons] at hitems
      exact .cons (hfirst hitems.1) (ih hitems.2)

/-- An array that can be written is shown, and as the document that is written just when none of its
leaves, through any nesting of arrays, is a date, a time, a timestamp, a byte string or an integral
double with digits or a sign that its integer does not have. -/
theorem array_shown_as_written_iff {items : List Value} {json : String}
    (h : (array (some items)).write = .ok json) :
    ∃ shown, (array (some items)).text? = some shown ∧
      (String.ofList shown = json ↔
        ∀ leaf ∈ (array (some items)).leaves, leaf.ShownAsStored) := by
  rw [write] at h
  split at h
  · cases h
  · next e he =>
      obtain ⟨hplain, hdepth, rfl⟩ := Entry.write_eq_ok_iff.mp h
      obtain ⟨shown, htext, -, hsame⟩ := displayed he ⟨hplain, hdepth⟩
      refine ⟨shown, htext, ?_⟩
      rw [← hsame, Entry.renderPieces_layout rfl, String.ofList_inj]

/-- Strings, fractions and absent arrays are shown as they are written. A date deeper inside is not,
nor is the negative zero, nor two to the power of sixty. -/
theorem array_shown_as_written_iff_mixed :
    let half : Value := .double ⟨0x3FE0000000000000⟩
    let day : Date := ⟨2024, 1, 15, by decide, by decide⟩
    let alike : Value := array (some [.string (some "a"), .array (some [half, .array none])])
    let dated : Value := array (some [.array (some [.date (some day)])])
    let zero : Value := array (some [.double ⟨0x8000000000000000⟩])
    let large : Value := array (some [.double ⟨0x43B0000000000000⟩])
    (alike.write = .ok "[\"a\",[0.5,null]]" ∧
      ∃ shown, alike.text? = some shown ∧ String.ofList shown = "[\"a\",[0.5,null]]") ∧
    (dated.write = .ok "[[\x7b\"%dt%\":\"2024-01-15\"\x7d]]" ∧
      ∃ shown, dated.text? = some shown ∧
        String.ofList shown ≠ "[[\x7b\"%dt%\":\"2024-01-15\"\x7d]]") ∧
    (zero.write = .ok "[0]" ∧ ∃ shown, zero.text? = some shown ∧ String.ofList shown ≠ "[0]") ∧
    (large.write = .ok "[1152921504606846976]" ∧
      ∃ shown, large.text? = some shown ∧ String.ofList shown ≠ "[1152921504606846976]") := by
  intro half day alike dated zero large
  have halike : alike.write = .ok "[\"a\",[0.5,null]]" := by decide +kernel
  have hdated : dated.write = .ok "[[\x7b\"%dt%\":\"2024-01-15\"\x7d]]" := by decide +kernel
  have hzero : zero.write = .ok "[0]" := by decide +kernel
  have hlarge : large.write = .ok "[1152921504606846976]" := by decide +kernel
  refine ⟨⟨halike, ?_⟩, ⟨hdated, ?_⟩, ⟨hzero, ?_⟩, hlarge, ?_⟩
  · obtain ⟨shown, htext, hsame⟩ := array_shown_as_written_iff halike
    exact ⟨shown, htext, hsame.mpr (by decide +kernel)⟩
  · obtain ⟨shown, htext, hsame⟩ := array_shown_as_written_iff hdated
    exact ⟨shown, htext, fun heq => absurd (hsame.mp heq) (by decide +kernel)⟩
  · obtain ⟨shown, htext, hsame⟩ := array_shown_as_written_iff hzero
    exact ⟨shown, htext, fun heq => absurd (hsame.mp heq) (by decide +kernel)⟩
  · obtain ⟨shown, htext, hsame⟩ := array_shown_as_written_iff hlarge
    exact ⟨shown, htext, fun heq => absurd (hsame.mp heq) (by decide +kernel)⟩

end Value

end ExtendedJson
