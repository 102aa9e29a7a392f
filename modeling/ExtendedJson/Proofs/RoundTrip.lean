import ExtendedJson.Proofs.Grammar.Documents
import ExtendedJson.Proofs.Grammar.Writing

/-!
# Writing and reading

What a writer writes, a reader whose limits allow for it reads back. The limits of the two have
nothing to do with each other: a reader counts the brackets of empty arrays and objects and of
wrappers, which cost a writer nothing, and an exponent is never written.
-/

namespace ExtendedJson

open Grammar

/-! ## What was written -/

namespace Entry

variable {e : Entry} {limits : ParserOptions} {options : WriterOptions}

theorem document_text (s : Spelling) :
    Document.text ⟨.empty, s, .empty⟩ = (String.ofList s.text).toList := by
  rw [String.toList_ofList]
  exact List.append_nil _

theorem parseEntry_layout (h : e.Readable limits.maxDepth)
    (hnumbers : e.NumbersSatisfy Decimal.Spellable) :
    parseEntry (String.ofList (renderPieces options (e.layout 0))) limits = .ok e.settled := by
  obtain ⟨s, htext, hfits⟩ := spelled limits options e limits.maxDepth 0 h hnumbers
  rw [parseEntry, Parser.readEntry_eq_ok_iff, ← htext]
  exact ⟨⟨.empty, s, .empty⟩, document_text s, hfits⟩

theorem parseArray_layout {items : List Entry} (h : (array items).Readable limits.maxDepth)
    (hnumbers : (array items).NumbersSatisfy Decimal.Spellable) :
    parseArray (String.ofList (renderPieces options ((array items).layout 0))) limits =
      .ok (mapItems Decimal.settled items) := by
  obtain ⟨levels, hlevels⟩ := h.exists_levels (by simp [readingDepth_array])
  rw [hlevels, readable_array_iff] at h
  rw [numbersSatisfy_array_iff] at hnumbers
  obtain ⟨gap, placed, htext, hfits⟩ := exists_array fun item hitem =>
    spelled limits options item levels 1 (h item hitem) (hnumbers item hitem)
  rw [← hlevels] at hfits
  rw [parseArray, Parser.readArray_eq_ok_iff, ← htext]
  exact ⟨.empty, gap, placed, .empty, document_text _, hfits⟩

theorem parseObject_layout {members : Object} (h : (object members).Readable limits.maxDepth)
    (hnumbers : (object members).NumbersSatisfy Decimal.Spellable) :
    parseObject (String.ofList (renderPieces options ((object members).layout 0))) limits =
      .ok ⟨mapPairs Decimal.settled members.pairs⟩ := by
  obtain ⟨pairs⟩ := members
  obtain ⟨levels, hlevels⟩ := h.exists_levels (by simp [readingDepth_object])
  rw [hlevels] at h
  obtain ⟨hkeys, -, h⟩ := readable_object_iff.mp h
  rw [numbersSatisfy_object_iff] at hnumbers
  obtain ⟨gap, placed, htext, hfits⟩ := exists_object fun pair hpair =>
    spelled limits options pair.2 levels 1 (h pair hpair) (hnumbers pair hpair)
  have hmerged : Members.merged (mapPairs Decimal.settled pairs) =
      mapPairs Decimal.settled pairs := by
    rw [← Members.pairs_ofPairs, Members.ofPairs_of_nodup]
    rw [keys_mapPairs]
    exact hkeys
  have hread : (Parser.ofText (String.ofList (renderPieces options ((object ⟨pairs⟩).layout 0)))
      limits).readObject.1 = .ok ⟨mapPairs Decimal.settled pairs⟩ := by
    rw [← hlevels] at hfits
    rw [Parser.readObject_eq_ok_iff, ← htext]
    exact ⟨.empty, gap, placed, .empty, _, document_text _, hfits, by rw [hmerged]⟩
  rw [parseObject, hread]

/-- What is written is read back as it settled: every entry is the same again, except that a number
of negative scale has got the zeros that its scale stood for. -/
theorem read_of_write {text : String} (hkeys : e.DistinctKeys)
    (hnumbers : e.NumbersSatisfy fun d => ¬(d.scale < 0 ∧ d.unscaled = 0))
    (hwrite : e.write options = .ok text) (hdepth : e.readingDepth ≤ limits.maxDepth) :
    parseEntry text limits = .ok e.settled ∧
      (∀ members, e = .object members →
        parseObject text limits = .ok ⟨mapPairs Decimal.settled members.pairs⟩) ∧
      ∀ items, e = .array items →
        parseArray text limits = .ok (mapItems Decimal.settled items) := by
  simp only [← Decimal.spellable_iff] at hnumbers
  obtain ⟨hplain, -, rfl⟩ := write_eq_ok_iff.mp hwrite
  have h : e.Readable limits.maxDepth := ⟨hkeys, hplain, hdepth⟩
  refine ⟨parseEntry_layout h hnumbers, ?_, ?_⟩
  · rintro members rfl
    exact parseObject_layout h hnumbers
  · rintro items rfl
    exact parseArray_layout h hnumbers

/-- An array, a number of negative scale, an extended entry and something empty, written over
several lines. -/
theorem read_of_write_nested :
    let e : Entry := .object ⟨[("a", .array [.number ⟨150, 2⟩, .number ⟨12, -3⟩, .string "\n"]),
      ("b", .date none), ("c", .array [])]⟩
    let text := "\x7b\n \"a\":[\n  1.50,\n  12000,\n  \"\\n\"\n ],\n" ++
      " \"b\":\x7b\"%dt%\":null\x7d,\n \"c\":[]\n\x7d"
    e.DistinctKeys ∧ e.write ⟨.readable, 1, 2⟩ = .ok text ∧ e.readingDepth = 2 ∧
      parseEntry text ⟨2, 0⟩ = .ok e.settled := by
  intro e text
  have hkeys : e.DistinctKeys := by
    simp [e, DistinctKeys, everywhere_object_iff, everywhere_array_iff, everywhere_leaf_iff]
  have hnumbers : e.NumbersSatisfy fun d => ¬(d.scale < 0 ∧ d.unscaled = 0) := by
    simp [e, NumbersSatisfy, everywhere_object_iff, everywhere_array_iff, everywhere_leaf_iff]
  have hwrite : e.write ⟨.readable, 1, 2⟩ = .ok text := by rfl
  have hdepth : e.readingDepth = 2 := by rfl
  exact ⟨hkeys, hwrite, hdepth, (read_of_write hkeys hnumbers hwrite (Nat.le_of_eq hdepth)).1⟩

end Entry

end ExtendedJson
