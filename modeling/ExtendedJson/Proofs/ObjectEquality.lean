import ExtendedJson.Proofs.CompactText
import ExtendedJson.Proofs.Hashing
import ExtendedJson.Proofs.Rereading
import ExtendedJson.Proofs.ValueStorage

/-!
# Equal objects among values

Values compare and hash an object by its compact text, which is there for every object that nests no
deeper than a machine word counts, also where the writer of documents would refuse it. Equality by
text is as fine as the text: objects that are no wrappers in disguise are equal just when they have
the same structure, with numbers of the same plain text.

Numbers of the same plain text stand for the same number. So equal objects would be equal as entries
too, if entries compared numbers by value. They nearly do: what parts them is the carry that is lost
between numbers ten places apart.
-/

namespace ExtendedJson

open Grammar

/-! ## Numbers of the same text -/

namespace Decimal

variable {d e : Decimal}

/-- What has the text of a number of the grammar is one, because no such text begins with two
zeros. -/
theorem SameText.spellable (h : SameText d e) (hd : d.Spellable) : e.Spellable := by
  by_contra he
  obtain ⟨zeros, hzeros⟩ := plain_of_not_spellable he
  obtain ⟨n, htext, -⟩ := exists_numeral hd
  have hnumeral : '0' :: '0' :: zeros = n.text ++ [] := by
    rw [List.append_nil, htext, ← hzeros, h]
  cases n.text_of_zero hnumeral

theorem SameText.settled_eq (h : SameText d e) (hd : d.Spellable) : d.settled = e.settled := by
  obtain ⟨n, hn, hexponent, hvalue⟩ := exists_numeral hd
  obtain ⟨m, hm, hexponent', hvalue'⟩ := exists_numeral (h.spellable hd)
  have hended : Ended [] := by
    intro c hc
    cases hc
  have hscan := Literal.scan_text n hexponent.le hended
  rw [hn, h, ← hm, Literal.scan_text m hexponent'.le hended] at hscan
  injection hscan with hscan
  injection hscan with hliteral
  rw [← hvalue, ← hvalue', ← n.value_literal, ← m.value_literal, hliteral]

theorem SameText.toRat_eq (h : SameText d e) : d.toRat = e.toRat := by
  by_cases hd : d.Spellable
  · rw [← toRat_settled d, h.settled_eq hd, toRat_settled]
  · have he : ¬ e.Spellable := fun he => hd (SameText.spellable h.symm he)
    rw [spellable_iff, not_not] at hd he
    rw [toRat_eq_zero hd.2, toRat_eq_zero he.2]

end Decimal

namespace Entry

theorem Alike.same_iff {a b : Entry} (h : Alike Decimal.SameText a b) :
    a.same b = true ↔ Alike (fun d e => ¬ Decimal.Parted d e) a b := by
  rw [same_iff_alike]
  constructor
  · exact Alike.of_both
      (fun d e htext hsame => (Decimal.same_iff_of_toRat_eq htext.toRat_eq).mp hsame) h
  · exact Alike.of_both
      (fun d e htext hparted => (Decimal.same_iff_of_toRat_eq htext.toRat_eq).mpr hparted) h

end Entry

/-! ## Texts of objects -/

namespace Object

theorem comparisonText_eq {o : Object} (h : (Entry.object o).writingDepth < 2 ^ 64) :
    o.comparisonText = (Entry.object o).compactText := by
  have hadmitted : Entry.Admitted ⟨pow2 64 - 1, false⟩ 0 (.object o) := by
    have hlimit : pow2 64 - 1 = 2 ^ 64 - 1 := rfl
    refine ⟨nofun, ?_⟩
    simp only [hlimit]
    omega
  have hpasses := (Entry.decided _ _ 0 (Nat.zero_le _)).passes hadmitted 0 []
  rw [List.append_nil] at hpasses
  rw [comparisonText, WriteRules.accept, hpasses]
  exact Entry.renderPieces_layout rfl _ 0

end Object

theorem Value.compare_object {a b : Object} (ha : (Entry.object a).writingDepth < 2 ^ 64)
    (hb : (Entry.object b).writingDepth < 2 ^ 64) :
    (Value.object (some a)).compare (.object (some b)) =
      .ok (Ord.compare (Entry.object a).compactText (Entry.object b).compactText) := by
  rw [← Object.comparisonText_eq ha, ← Object.comparisonText_eq hb]
  rfl

theorem Value.same_object_iff {a b : Object} (ha : (Entry.object a).writingDepth < 2 ^ 64)
    (hb : (Entry.object b).writingDepth < 2 ^ 64) :
    (Value.object (some a)).same (.object (some b)) = true ↔
      (Entry.object a).compactText = (Entry.object b).compactText := by
  rw [Value.same_iff, Value.compare_object ha hb, Except.ok.injEq]
  exact Std.LawfulEqCmp.compare_eq_iff_eq

/-- Up to the nesting that a machine word counts, an object is compared and hashed by all of its
compact text, which is what is written for it if it can be written. Two objects without disguise are
equal as values if they have the same structure, with numbers of the same text. As entries they are
equal then too, unless a carry parts two numbers that stand at the same place. -/
theorem objects_compared_by_compactText {a b : Object} (ha : (Entry.object a).writingDepth < 2 ^ 64)
    (hb : (Entry.object b).writingDepth < 2 ^ 64) :
    (a.comparisonText = (Entry.object a).compactText ∧ a.comparisonText ≠ [] ∧
      (∀ text, (Entry.object a).write = .ok text → a.comparisonText = text.toList) ∧
      (Value.object (some a)).hashTokens =
        [.kind .object, .present true, .text (Entry.object a).compactText]) ∧
    (Value.object (some a)).compare (.object (some b)) =
      .ok (Ord.compare (Entry.object a).compactText (Entry.object b).compactText) ∧
    ((Entry.object a).Unambiguous → (Entry.object b).Unambiguous →
      ((Value.object (some a)).same (.object (some b)) = true ↔
        Entry.Alike Decimal.SameText (.object a) (.object b)) ∧
      ((Value.object (some a)).same (.object (some b)) = true →
        ((Entry.object a).same (.object b) = true ↔
          Entry.Alike (fun d e => ¬ Decimal.Parted d e) (.object a) (.object b)))) := by
  have htext := Object.comparisonText_eq ha
  obtain ⟨first, tail, hfirst, -⟩ := Entry.exists_cons_compactText (.object a)
  refine ⟨⟨htext, by simp [htext, hfirst], ?_, ?_⟩, Value.compare_object ha hb, ?_⟩
  · intro text hwrite
    obtain ⟨-, -, rfl⟩ := Entry.write_eq_ok_iff.mp hwrite
    rw [htext, String.toList_ofList, Entry.renderPieces_layout rfl]
  · rw [← htext]
    rfl
  · intro hplain hplain'
    have halike : (Value.object (some a)).same (.object (some b)) = true ↔
        Entry.Alike Decimal.SameText (.object a) (.object b) := by
      rw [Value.same_object_iff ha hb, Entry.compactText_eq_iff hplain hplain']
    exact ⟨halike, fun hsame => (halike.mp hsame).same_iff⟩

/-- Two objects with one text that are no equal entries. -/
theorem objects_compared_by_compactText_parted :
    let a : Object := ⟨[("k", .number ⟨7922816251533193472, -10⟩)]⟩
    let b : Object := ⟨[("k", .number ⟨79228162515331934720000000000, 0⟩)]⟩
    (Value.object (some a)).same (.object (some b)) = true ∧
      ¬ (Entry.object a).same (.object b) = true ∧
      a.comparisonText = "\x7b\"k\":79228162515331934720000000000\x7d".toList := by
  intro a b
  have hone (d : Decimal) : (Entry.object ⟨[("k", .number d)]⟩).Unambiguous :=
    Entry.unambiguous_object_iff.mpr
      ⟨rfl, List.forall_mem_singleton.mpr
        ((Entry.everywhere_leaf_iff (by simp) (by simp)).mpr trivial)⟩
  have hdeep (d : Decimal) : (Entry.object ⟨[("k", .number d)]⟩).writingDepth < 2 ^ 64 :=
    show 1 < 2 ^ 64 by decide
  have hnumbers : (⟨7922816251533193472, -10⟩ : Decimal).plain =
      (⟨79228162515331934720000000000, 0⟩ : Decimal).plain := by decide +kernel
  obtain ⟨⟨htext, -⟩, -, hstructure⟩ :=
    objects_compared_by_compactText (a := a) (b := b) (hdeep _) (hdeep _)
  obtain ⟨hsame, hentries⟩ := hstructure (hone _) (hone _)
  have hequal := hsame.mpr (.object rfl (.cons (.number hnumbers) .nil))
  refine ⟨hequal, fun h => ?_, ?_⟩
  · cases Entry.alike_object_iff.mp ((hentries hequal).mp h) with
    | cons hvalue _ =>
        cases hvalue.2 with
        | number hparted => exact hparted (.inr ⟨rfl, rfl, 1, by decide +kernel⟩)
  · rw [htext]
    decide +kernel

end ExtendedJson
