import ExtendedJson.Proofs.Grammar.Reading
import ExtendedJson.Proofs.OutsideLiterals

/-!
# Where a cursor stands and how it moves

Where a cursor stands is said by the characters before it. They determine the offset in bytes, the
line and the column, and a cursor that moves on keeps to them.

Where a cursor has got to is said by what it has passed. Most readers go over whole tokens, and then
it is known how many brackets they leave open: none that they opened themselves, and the one in front
of it while a bracket is read. `Climbs` says so, and climbs add up.
-/

namespace ExtendedJson

/-! ## Places in a text -/

namespace Cursor

/-- Some characters are what stands in front of a cursor. -/
structure Behind (before : List Char) (c : Cursor) : Prop where
  offset : c.offset = (String.ofList before).utf8ByteSize
  line : c.line = 1 + before.count '\n'
  column : c.column = 1 + (before.reverse.takeWhile (· ≠ '\n')).length

/-- The place of a cursor is one in a text: what is left there is the end of the text, and the
characters in front of it are counted. -/
def In (text : String) (c : Cursor) : Prop :=
  ∃ before, text.toList = before ++ c.rest ∧ c.Behind before

theorem in_start (text : String) : In text (start text) :=
  ⟨[], rfl, rfl, rfl, rfl⟩

/-- One character more stands in front of the next place. -/
theorem Behind.step {before : List Char} {c : Cursor} {first : Char} {rest : List Char}
    (h : Behind before c) (hrest : c.rest = first :: rest) : Behind (before ++ [first]) c.step where
  offset := by
    rw [String.ofList_append, String.utf8ByteSize_append, ← h.offset, ← String.singleton_eq_ofList,
      String.utf8ByteSize_singleton]
    unfold Cursor.step
    simp only [hrest]
    split <;> rfl
  line := by
    by_cases hbreak : first = '\n'
    · have hnext : c.step.line = c.line + 1 := by simp [Cursor.step, hrest, hbreak]
      rw [hnext, h.line, List.count_append, hbreak, List.count_singleton_self, Nat.add_assoc]
    · have hsame : c.step.line = c.line := by simp [Cursor.step, hrest, hbreak]
      rw [hsame, h.line, List.count_append, List.count_singleton]
      simp [hbreak]
  column := by
    rw [List.reverse_append, List.reverse_singleton, List.singleton_append]
    by_cases hbreak : first = '\n'
    · rw [List.takeWhile_cons_of_neg (by simp [hbreak])]
      simp [Cursor.step, hrest, hbreak]
    · have hnext : c.step.column = c.column + 1 := by simp [Cursor.step, hrest, hbreak]
      rw [List.takeWhile_cons_of_pos (by simp [hbreak]), hnext, h.column, List.length_cons,
        Nat.add_assoc]

theorem In.step {text : String} {c : Cursor} (h : In text c) : In text c.step := by
  obtain ⟨before, htext, hbehind⟩ := h
  cases hrest : c.rest with
  | nil =>
      have hstays : c.step = c := by simp [Cursor.step, hrest]
      rw [hstays]
      exact ⟨before, htext, hbehind⟩
  | cons first rest =>
      refine ⟨before ++ [first], ?_, hbehind.step hrest⟩
      rw [rest_step, htext, hrest, List.drop_one, List.tail_cons, List.append_assoc,
        List.singleton_append]

theorem In.skip {text : String} {c : Cursor} (h : In text c) (n : Nat) : In text (c.skip n) := by
  induction n generalizing c with
  | zero => exact h
  | succ n ih => exact ih h.step

/-- Such a place is between two characters, so not beyond the end of the text. -/
theorem In.isValid {text : String} {c : Cursor} (h : In text c) :
    String.Pos.Raw.IsValid text ⟨c.offset⟩ := by
  obtain ⟨before, htext, hbehind⟩ := h
  refine String.Pos.Raw.isValid_iff_exists_append.mpr
    ⟨String.ofList before, String.ofList c.rest, ?_, ?_⟩
  · rw [← String.ofList_append, ← htext, String.ofList_toList]
  · rw [hbehind.offset]
    rfl

theorem In.offset_le {text : String} {c : Cursor} (h : In text c) :
    c.offset ≤ text.utf8ByteSize := h.isValid.le_utf8ByteSize

/-- A cursor that has used up the text stands at its end. -/
theorem In.offset_eq {text : String} {c : Cursor} (h : In text c) (hrest : c.rest = []) :
    c.offset = text.utf8ByteSize := by
  obtain ⟨before, htext, hbehind⟩ := h
  rw [hrest, List.append_nil] at htext
  rw [hbehind.offset, ← htext, String.ofList_toList]

/-! ## Moving on -/

/-- One cursor is the other some characters on. -/
def Leads (c after : Cursor) : Prop := ∃ n, after = c.skip n

theorem skip_skip (c : Cursor) (m n : Nat) : (c.skip m).skip n = c.skip (m + n) := by
  induction m generalizing c with
  | zero => rw [Nat.zero_add]; rfl
  | succ m ih => rw [Nat.succ_add, skip, skip, ih]

theorem Leads.refl (c : Cursor) : Leads c c := ⟨0, rfl⟩

theorem Leads.trans {a b c : Cursor} (hab : Leads a b) (hbc : Leads b c) : Leads a c := by
  obtain ⟨m, rfl⟩ := hab
  obtain ⟨n, rfl⟩ := hbc
  exact ⟨m + n, skip_skip a m n⟩

theorem leads_skip (c : Cursor) (n : Nat) : Leads c (c.skip n) := ⟨n, rfl⟩

theorem leads_step (c : Cursor) : Leads c c.step := ⟨1, rfl⟩

theorem leads_skipLayout (c : Cursor) : Leads c c.skipLayout := ⟨_, rfl⟩

theorem offset_le_step (c : Cursor) : c.offset ≤ c.step.offset := by
  unfold step
  split
  · exact Nat.le_refl _
  · split <;> exact Nat.le_add_right _ _

theorem Leads.offset_le {c after : Cursor} (h : Leads c after) : c.offset ≤ after.offset := by
  obtain ⟨n, rfl⟩ := h
  induction n generalizing c with
  | zero => exact Nat.le_refl _
  | succ n ih => exact Nat.le_trans (offset_le_step c) ih

theorem Leads.in {text : String} {c after : Cursor} (h : Leads c after) (hc : In text c) :
    In text after := by
  obtain ⟨n, rfl⟩ := h
  exact hc.skip n

/-- What stands in front of a cursor is all but what is left of the text. -/
theorem Leads.behind {text : String} {c : Cursor} {before : List Char}
    (h : (start text).Leads c) (htext : text.toList = before ++ c.rest) : c.Behind before := by
  obtain ⟨front, hfront, hbehind⟩ := h.in (in_start text)
  rwa [List.append_cancel_right (hfront.symm.trans htext)] at hbehind

/-! ## Open brackets -/

/-- One cursor is the other a text on, over whole literals, and behind that text so many more brackets
are open than before it. -/
structure Climbs (c : Cursor) (levels : Nat) (after : Cursor) : Prop where
  leads : c.Leads after
  text : ∃ text, c.rest = text ++ after.rest ∧ Whole text ∧
    ∀ count, openBehind count text = count + levels

theorem climbs_of_bracketless {text : List Char} (h : Bracketless text) {c after : Cursor}
    (hleads : c.Leads after) (hrest : c.rest = text ++ after.rest) : c.Climbs 0 after :=
  ⟨hleads, text, hrest, h.whole, h.openBehind⟩

theorem Climbs.refl (c : Cursor) : Climbs c 0 c :=
  climbs_of_bracketless bracketless_nil (.refl c) rfl

theorem Climbs.trans {a b c : Cursor} {m n : Nat} (hab : Climbs a m b) (hbc : Climbs b n c) :
    Climbs a (m + n) c := by
  obtain ⟨first, ha, hfirst, hm⟩ := hab.text
  obtain ⟨second, hb, hsecond, hn⟩ := hbc.text
  refine ⟨hab.leads.trans hbc.leads, first ++ second, ?_, hfirst.append hsecond, fun count => ?_⟩
  · rw [ha, hb, List.append_assoc]
  · rw [hfirst.openBehind_append, hm, hn, Nat.add_assoc]

theorem climbs_skipLayout (c : Cursor) : c.Climbs 0 c.skipLayout := by
  obtain ⟨gap, hgap⟩ := Grammar.exists_gap c.rest
  exact climbs_of_bracketless (bracketless_gap gap) c.leads_skipLayout
    (by rw [rest_skipLayout, ← hgap])

theorem climbs_step {c : Cursor} {first : Char} {rest : List Char} (h : c.rest = first :: rest)
    (hplain : Plain first) : c.Climbs 0 c.step :=
  climbs_of_bracketless (bracketless_of_plain (List.forall_mem_singleton.mpr hplain)) c.leads_step
    (by rw [rest_step, h]; rfl)

/-- Only an opening bracket leads further in. -/
theorem climbs_opening {c : Cursor} {bracket : Char} {rest : List Char}
    (h : c.rest = bracket :: rest) (hopening : bracket ∈ openingBrackets) : c.Climbs 1 c.step := by
  refine ⟨c.leads_step, [bracket], by rw [rest_step, h]; rfl, ?_, fun count => ?_⟩
  · rcases mem_openingBrackets_iff.mp hopening with rfl | rfl <;> rfl
  · rw [openBehind_singleton, openPast_opening hopening]

/-- A closing bracket leads back out. -/
theorem Climbs.closing {c mark : Cursor} {levels : Nat} (h : c.Climbs (levels + 1) mark)
    {bracket : Char} {rest : List Char} (hmark : mark.rest = bracket :: rest)
    (hclosing : bracket ∈ closingBrackets) : c.Climbs levels mark.step := by
  obtain ⟨text, hrest, hwhole, hopen⟩ := h.text
  have hbracket : Whole [bracket] := by
    rcases mem_closingBrackets_iff.mp hclosing with rfl | rfl <;> rfl
  refine ⟨h.leads.trans mark.leads_step, text ++ [bracket], ?_, hwhole.append hbracket,
    fun count => ?_⟩
  · rw [hrest, rest_step, hmark, List.append_assoc]
    rfl
  · rw [hwhole.openBehind_append, hopen, openBehind_singleton, openPast_closing hclosing]
    rfl

/-- What a cursor has passed since the start of a text is what stands in front of it. -/
theorem Climbs.behind {text : String} {place : Cursor} {levels : Nat}
    (h : (start text).Climbs levels place) :
    ∃ before, text.toList = before ++ place.rest ∧ place.Behind before ∧ Whole before ∧
      openBehind 0 before = levels := by
  obtain ⟨before, hbefore, hwhole, hopen⟩ := h.text
  exact ⟨before, hbefore, h.leads.behind hbefore, hwhole, by rw [hopen, Nat.zero_add]⟩

end Cursor

end ExtendedJson
