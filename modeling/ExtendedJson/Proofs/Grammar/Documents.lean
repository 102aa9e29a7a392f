import ExtendedJson.Document
import ExtendedJson.Proofs.Grammar.Reading

/-!
# Which texts are documents

A parser accepts what is left of its text just when that is a document of the grammar within the
limits, and gives what it means. The three readings differ only in the entries that they are content
with. A parser that has failed before still counts the brackets that were open, so the limit is on
the levels that it has left.
-/

namespace ExtendedJson

open Grammar

namespace Parser

variable {α : Type} {p : Parser}

theorem finish_eq_ok_iff {read : Except Failure (α × Cursor)} {value : α} :
    (p.finish read).1 = .ok value ↔
      ∃ after, read = .ok (value, after) ∧ afterBlanks after.rest = [] := by
  cases read with
  | error failure => simp [finish, failed]
  | ok read =>
      obtain ⟨found, after⟩ := read
      simp only [finish, List.isEmpty_iff, Cursor.rest_skipLayout, Except.ok.injEq, Prod.mk.injEq]
      by_cases hend : afterBlanks after.rest = []
      · rw [if_pos hend]
        simp [hend]
      · rw [if_neg hend]
        simp only [failed, reduceCtorEq, false_iff, not_exists]
        rintro _ ⟨⟨-, rfl⟩, hnil⟩
        exact hend hnil

theorem readEntry_eq_ok_iff {entry : Entry} :
    p.readEntry.1 = .ok entry ↔
      ∃ d : Document, d.text = p.cursor.rest ∧ Fits p.options p.levels d.item entry := by
  have hreads := reads_value p.options p.levels
  rw [readEntry, finish_eq_ok_iff]
  constructor
  · intro h
    obtain ⟨after, h, hend⟩ := h
    split at h
    · simp at h
    · next taken htaken =>
        obtain ⟨d, hd, hfits⟩ := hreads.sound htaken
        injection h with h
        injection h with hentry hafter
        rw [hafter, hend, List.append_nil] at hd
        exact ⟨d, hd.symm, hentry ▸ hfits⟩
  · intro h
    obtain ⟨d, hd, hfits⟩ := h
    obtain ⟨t, ht, hentry, hend⟩ := hreads.complete (c := p.cursor) hfits stops_nil (by
      rw [List.append_nil, ← hd]
      rfl)
    rw [ht]
    exact ⟨t.after, by rw [← hentry], hend⟩

/-- Where an array has been read to the end of the text, the text is a document. -/
theorem readArray_eq_ok_iff {items : List Entry} :
    p.readArray.1 = .ok items ↔
      ∃ before gap placed behind,
        Document.text ⟨before, .array gap placed, behind⟩ = p.cursor.rest ∧
        Fits p.options p.levels (.array gap placed) (.array items) := by
  have hinside := readsInside p.options p.levels
  unfold readArray
  constructor
  · intro h
    by_cases hopen : p.cursor.skipLayout.rest.head? = some '['
    · simp only [hopen, if_true, finish_eq_ok_iff] at h
      obtain ⟨after, hread, hend⟩ := h
      obtain ⟨gap, placed, hrest, hfits⟩ := readArray_sound hinside hopen hread
      obtain ⟨before, hbefore⟩ := exists_gap p.cursor.rest
      obtain ⟨behind, hbehind⟩ := exists_gap after.rest
      rw [hend, List.append_nil] at hbehind
      refine ⟨before, gap, placed, behind, ?_, hfits⟩
      rw [hbefore, ← Cursor.rest_skipLayout, hrest, hbehind]
      rfl
    · simp [hopen, failed] at h
  · intro h
    obtain ⟨before, gap, placed, behind, htext, hfits⟩ := h
    have hskip : p.cursor.skipLayout.rest = (Spelling.array gap placed).text ++ behind.text := by
      rw [Cursor.rest_skipLayout, ← htext, Document.text, Placed.textBy, afterBlanks_gap,
        afterBlanks_spelling]
    obtain ⟨after, hread, hafter⟩ := readArray_complete hinside hfits hskip
    have hopen : p.cursor.skipLayout.rest.head? = some '[' := by rw [hskip]; rfl
    simp only [hopen, if_true, finish_eq_ok_iff]
    refine ⟨after, hread, ?_⟩
    calc afterBlanks after.rest = afterBlanks (behind.text ++ []) := by rw [hafter, List.append_nil]
      _ = [] := afterBlanks_gap behind []

theorem readObject_eq_ok_iff {object : Object} :
    p.readObject.1 = .ok object ↔
      ∃ before gap members behind pairs,
        Document.text ⟨before, .object gap members, behind⟩ = p.cursor.rest ∧
        FitsObject p.options p.levels gap members pairs ∧ object = ⟨Members.merged pairs⟩ := by
  have hinside := readsInside p.options p.levels
  unfold readObject
  constructor
  · intro h
    by_cases hopen : p.cursor.skipLayout.rest.head? = some '\x7b'
    · simp only [hopen, if_true, finish_eq_ok_iff] at h
      obtain ⟨after, hread, hend⟩ := h
      obtain ⟨gap, members, pairs, hrest, hfits, hobject⟩ := readObject_sound hinside hopen hread
      obtain ⟨before, hbefore⟩ := exists_gap p.cursor.rest
      obtain ⟨behind, hbehind⟩ := exists_gap after.rest
      rw [hend, List.append_nil] at hbehind
      refine ⟨before, gap, members, behind, pairs, ?_, hfits, hobject⟩
      rw [hbefore, ← Cursor.rest_skipLayout, hrest, hbehind]
      rfl
    · simp [hopen, failed] at h
  · intro h
    obtain ⟨before, gap, members, behind, pairs, htext, hfits, rfl⟩ := h
    have hskip : p.cursor.skipLayout.rest =
        (Spelling.object gap members).text ++ behind.text := by
      rw [Cursor.rest_skipLayout, ← htext, Document.text, Placed.textBy, afterBlanks_gap,
        afterBlanks_spelling]
    obtain ⟨after, hread, hafter⟩ := readObject_complete hinside hfits hskip
    have hopen : p.cursor.skipLayout.rest.head? = some '\x7b' := by rw [hskip]; rfl
    simp only [hopen, if_true, finish_eq_ok_iff]
    refine ⟨after, hread, ?_⟩
    calc afterBlanks after.rest = afterBlanks (behind.text ++ []) := by rw [hafter, List.append_nil]
      _ = [] := afterBlanks_gap behind []

end Parser

/-- A text is accepted just when it is a document of the grammar, within the limits, in which every
wrapper decodes; the entry read is the one that it means. -/
theorem parseEntry_eq_ok_iff_spelled (text : String) (options : ParserOptions) (entry : Entry) :
    parseEntry text options = .ok entry ↔
      ∃ document : Document, document.text = text.toList ∧
        document.item.depth ≤ options.maxDepth ∧
        document.item.ExponentsWithin options.maxExponent ∧
        document.item.meaning? = some entry :=
  Parser.readEntry_eq_ok_iff

end ExtendedJson
