import ExtendedJson.Entry.Equality
import ExtendedJson.Proofs.DecimalEquality
import ExtendedJson.Proofs.Grammar.Meanings
import ExtendedJson.Proofs.Grammar.Unspelled
import ExtendedJson.Proofs.RoundTrip

/-!
# Reading again what was read

Whatever was read can be written, because a reader lets nothing through that a writer refuses and
leaves more levels to the writer than it takes itself. The text is not always read again, though,
and the entry that is read from it does not always equal the first one. Numbers with an exponent are
to blame in both cases: a zero of negative scale is written with two zeros, and a number that lies
ten places above the point is compared with its own digits by a product that may lose a carry.
-/

namespace ExtendedJson

open Grammar

/-! ## Numbers -/

namespace Decimal

theorem toRat_settled (d : Decimal) : d.settled.toRat = d.toRat := by
  unfold settled
  split
  · next h =>
      have hcast := cast_unscaled_mul_pow10 (d := d) (m := 0) (by omega)
      rw [zpow_zero, mul_one, Int.zero_sub] at hcast
      rw [← hcast, toRat]
      simp
  · rfl

theorem compare_settled (d : Decimal) : (d.settled.compare d == .eq) = true :=
  compare_eq_of_toRat (toRat_settled d)

/-- Settling makes a number that equals the old one, unless a carry is lost over that. -/
theorem same_settled_iff (d : Decimal) : d.settled.same d = true ↔ ¬ d.Mistaken := by
  rw [same_iff_of_toRat_eq (toRat_settled d)]
  refine not_congr ?_
  obtain ⟨unscaled, scale⟩ := d
  by_cases h : scale < 0
  · rw [settled_of_nonpos h.le, Parted]
    constructor
    · rintro (⟨hten, hlost⟩ | ⟨hten, -⟩)
      · obtain rfl : scale = -10 := by simp only at hten; omega
        exact hlost
      · simp only at hten
        omega
    · intro hlost
      obtain rfl : scale = -10 := hlost.1
      exact Or.inl ⟨rfl, hlost⟩
  · rw [settled_of_nonneg (by simpa using h)]
    refine iff_of_false ?_ fun hlost => h (by rw [show scale = -10 from hlost.1]; decide)
    rintro (⟨hten, -⟩ | ⟨hten, -⟩) <;> omega

example : (Decimal.settled ⟨7922816251533193472, -10⟩).same ⟨7922816251533193472, -10⟩ = false := by
  decide +kernel

end Decimal

/-! ## Entries -/

namespace Entry

theorem sameItems_iff {as bs : List Entry} :
    sameItems as bs = true ↔ List.Forall₂ (fun a b => a.same b = true) as bs := by
  symm
  apply forall₂_iff_of_cons
  · intro bs
    cases bs <;> simp [sameItems]
  · intro a as bs
    cases bs <;> simp [sameItems]

theorem samePairs_iff {as bs : List (String × Entry)} :
    samePairs as bs = true ↔
      List.Forall₂ (fun a b => a.1 = b.1 ∧ a.2.same b.2 = true) as bs := by
  symm
  apply forall₂_iff_of_cons
  · intro bs
    cases bs <;> simp [samePairs]
  · intro (key, a) as bs
    cases bs with
    | nil => simp [samePairs]
    | cons b bs =>
        obtain ⟨other, b⟩ := b
        simp only [samePairs, Bool.and_eq_true, beq_iff_eq]
        constructor
        · rintro ⟨⟨rfl, hsame⟩, hrest⟩
          exact ⟨_, _, ⟨rfl, hsame⟩, hrest, rfl⟩
        · rintro ⟨_, _, ⟨rfl, hsame⟩, hrest, hcons⟩
          cases hcons
          exact ⟨⟨rfl, hsame⟩, hrest⟩

/-- Entries are equal when they have one structure, with equal numbers. -/
theorem same_iff_alike {a : Entry} :
    ∀ {b : Entry}, a.same b = true ↔ Alike (fun d e => d.same e = true) a b := by
  induction a using byShape with
  | array items ih =>
      intro b
      cases b with
      | array others =>
          rw [same, sameItems_iff, alike_array_iff]
          exact forall₂_congr_of_mem ih
      | _ => exact iff_of_false (by simp [same]) (by rintro ⟨⟩)
  | object pairs ih =>
      intro b
      cases b with
      | object members =>
          obtain ⟨others⟩ := members
          rw [same, samePairs_iff, alike_object_iff]
          exact forall₂_congr_of_mem fun pair hpair _ => and_congr_right' (ih pair hpair)
      | _ => exact iff_of_false (by simp [same]) (by rintro ⟨⟩)
  | number d =>
      intro b
      cases b with
      | number e =>
          rw [same]
          refine ⟨fun h => .number h, fun h => ?_⟩
          cases h with
          | number hsame => exact hsame
      | _ => exact iff_of_false (by simp [same]) (by rintro ⟨⟩)
  | null | boolean | string | binary | date | time | timestamp =>
      intro b
      constructor
      · intro h
        cases b <;> simp [same] at h
        all_goals
          subst_vars
          constructor
      · intro h
        cases h
        simp [same]

theorem same_mapNumbers_iff {f : Decimal → Decimal} (e : Entry) :
    (e.mapNumbers f).same e = true ↔ e.NumbersSatisfy fun d => (f d).same d = true := by
  induction e using byShape with
  | number d =>
      rw [numbersSatisfy_number_iff, mapNumbers, same]
  | array items ih =>
      rw [numbersSatisfy_array_iff, mapNumbers, same, mapItems_eq_map, sameItems_iff,
        List.forall₂_map_left_iff, List.forall₂_same]
      exact forall₂_congr ih
  | object pairs ih =>
      rw [numbersSatisfy_object_iff, mapNumbers, same, mapPairs_eq_map, samePairs_iff,
        List.forall₂_map_left_iff, List.forall₂_same]
      simp only [true_and]
      exact forall₂_congr ih
  | null | boolean | string | binary | date | time | timestamp =>
      rw [NumbersSatisfy, everywhere_leaf_iff (by simp) (by simp)]
      simp [mapNumbers, same]

variable {limits : ParserOptions} {options : WriterOptions} {levels : Nat} {e : Entry}

theorem Readable.write_eq (h : Readable levels e) (hdepth : levels ≤ options.maxDepth) :
    e.write options = .ok (String.ofList (renderPieces options (e.layout 0))) :=
  write_eq_ok_iff.mpr ⟨h.plain, ((writingDepth_le_readingDepth e).trans h.depth).trans hdepth, rfl⟩

/-- The numbers that come back from their texts, as numbers that equal them. -/
def Returns (e : Entry) : Prop := e.NumbersSatisfy fun d => d.Spellable ∧ ¬ d.Mistaken

theorem returns_iff : e.Returns ↔ e.NumbersSatisfy Decimal.Spellable ∧ e.settled.same e = true := by
  simp only [Returns, numbersSatisfy_and_iff, settled, same_mapNumbers_iff,
    Decimal.same_settled_iff]

/-- The text of what can be read is read again and gives an equal entry, just when all numbers
return. -/
theorem Readable.reread_iff (h : Readable limits.maxDepth e) :
    (∃ again, parseEntry (String.ofList (renderPieces options (e.layout 0))) limits = .ok again ∧
      again.same e = true) ↔ e.Returns := by
  rw [returns_iff]
  constructor
  · intro h
    obtain ⟨again, hread, hsame⟩ := h
    have hspell : e.NumbersSatisfy Decimal.Spellable := by
      by_contra hspell
      exact parseEntry_layout_ne_ok h hspell again hread
    rw [parseEntry_layout h hspell] at hread
    injection hread with hread
    exact ⟨hspell, hread ▸ hsame⟩
  · intro h
    obtain ⟨hspell, hsame⟩ := h
    exact ⟨_, parseEntry_layout h hspell, hsame⟩

end Entry

theorem readable_of_parseEntry {text : String} {limits : ParserOptions} {e : Entry}
    (h : parseEntry text limits = .ok e) : e.Readable limits.maxDepth := by
  rw [parseEntry, Parser.readEntry_eq_ok_iff] at h
  obtain ⟨d, -, hfits⟩ := h
  exact .of_fits limits _ _ _ hfits

theorem parseEntry_of_parseArray {text : String} {limits : ParserOptions} {items : List Entry}
    (h : parseArray text limits = .ok items) : parseEntry text limits = .ok (.array items) := by
  rw [parseArray, Parser.readArray_eq_ok_iff] at h
  obtain ⟨before, gap, placed, behind, htext, hfits⟩ := h
  rw [parseEntry, Parser.readEntry_eq_ok_iff]
  exact ⟨⟨before, .array gap placed, behind⟩, htext, hfits⟩

theorem Entry.Readable.reread_array_iff {limits : ParserOptions} {options : WriterOptions}
    {items : List Entry} (h : Entry.Readable limits.maxDepth (.array items)) :
    (∃ again, parseArray (String.ofList (renderPieces options ((Entry.array items).layout 0)))
        limits = .ok again ∧ Entry.sameItems again items = true) ↔ (Entry.array items).Returns := by
  constructor
  · intro h
    obtain ⟨again, hread, hsame⟩ := h
    exact h.reread_iff.mp ⟨.array again, parseEntry_of_parseArray hread, hsame⟩
  · intro hreturns
    obtain ⟨hspell, hsame⟩ := Entry.returns_iff.mp hreturns
    exact ⟨_, Entry.parseArray_layout h hspell, hsame⟩

/-- Whatever is read can be written. Its text is read again as an equal entry just when all numbers
in it return. -/
theorem reread_iff_returns (text : String) :
    (∀ e, parseEntry text = .ok e → ∃ written, e.write = .ok written ∧
      ((∃ again, parseEntry written = .ok again ∧ again.same e = true) ↔ e.Returns)) ∧
    ∀ items, parseArray text = .ok items → ∃ written, (Entry.array items).write = .ok written ∧
      ((∃ again, parseArray written = .ok again ∧ Entry.sameItems again items = true) ↔
        (Entry.array items).Returns) := by
  constructor
  · intro e hread
    have h := readable_of_parseEntry hread
    exact ⟨_, h.write_eq (by decide), h.reread_iff⟩
  · intro items hread
    have h := readable_of_parseEntry (parseEntry_of_parseArray hread)
    exact ⟨_, h.write_eq (by decide), h.reread_array_iff⟩

/-- A zero with an exponent is written with two zeros, which are not read. An array of a zero with a
point in it returns. -/
theorem reread_iff_returns_zero :
    (parseEntry "0e1" = .ok (.number ⟨0, -1⟩) ∧
      ∃ written, (Entry.number ⟨0, -1⟩).write = .ok written ∧
        ¬ ∃ again, parseEntry written = .ok again ∧ again.same (.number ⟨0, -1⟩) = true) ∧
    (parseArray "[0.0]" = .ok [.number ⟨0, 1⟩] ∧
      ∃ written, (Entry.array [.number ⟨0, 1⟩]).write = .ok written ∧
        ∃ again, parseArray written = .ok again ∧
          Entry.sameItems again [.number ⟨0, 1⟩] = true) := by
  have hzero : parseEntry "0e1" = .ok (.number ⟨0, -1⟩) := by rfl
  have hreturns : (Entry.array [.number ⟨0, 1⟩]).Returns := by
    simp [Entry.Returns, Entry.numbersSatisfy_array_iff, Entry.numbersSatisfy_number_iff,
      Decimal.Spellable, Decimal.Mistaken]
  have hreadable : (Entry.array [.number ⟨0, 1⟩]).Readable 128 := by
    rw [Entry.readable_array_iff, List.forall_mem_singleton]
    exact .of_leaf rfl
  have harray : parseArray "[0.0]" = .ok [.number ⟨0, 1⟩] := by
    change parseArray
      (String.ofList (renderPieces {} ((Entry.array [.number ⟨0, 1⟩]).layout 0))) = _
    exact Entry.parseArray_layout hreadable (Entry.returns_iff.mp hreturns).1
  refine ⟨⟨hzero, ?_⟩, harray, ?_⟩
  · obtain ⟨written, hwrite, hiff⟩ := (reread_iff_returns "0e1").1 _ hzero
    refine ⟨written, hwrite, fun hread => ?_⟩
    have hspell := (hiff.mp hread).self.1
    exact absurd hspell (by simp [Decimal.Spellable])
  · obtain ⟨written, hwrite, hiff⟩ := (reread_iff_returns "[0.0]").2 _ harray
    exact ⟨written, hwrite, hiff.mpr hreturns⟩

end ExtendedJson
