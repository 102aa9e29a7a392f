import ExtendedJson.Proofs.Grammar.Meanings
import ExtendedJson.Proofs.Grammar.Refusals
import ExtendedJson.Proofs.RoundTrip

/-!
# Two limits on nesting

A reader counts every bracket when it opens. A writer counts a bracket only when it goes on behind
it, so that empty arrays and objects and the wrappers of extended entries, which it writes in one
piece, are free. The two limits stop the same documents except for those in which such a piece
stands just where the levels have run out: the reader then stops at a bracket that the writer does
not count.
-/

namespace ExtendedJson

open Grammar

namespace Entry

/-! ## Depth -/

theorem lt_depthItems_iff {flat n : Nat} {items : List Entry} :
    n < depthItems flat items ↔ ∃ item ∈ items, n < depthWith flat item := by
  rw [← Nat.not_le, depthItems_le_iff]
  simp

theorem lt_depthPairs_iff {flat n : Nat} {pairs : List (String × Entry)} :
    n < depthPairs flat pairs ↔ ∃ pair ∈ pairs, n < depthWith flat pair.2 := by
  rw [← Nat.not_le, depthPairs_le_iff]
  simp

theorem depthWith_mapNumbers (flat : Nat) (f : Decimal → Decimal) (e : Entry) :
    (e.mapNumbers f).depthWith flat = e.depthWith flat := by
  induction e using byShape with
  | array items ih =>
      have hdepth : depthItems flat (mapItems f items) = depthItems flat items := by
        refine eq_of_forall_ge_iff fun n => ?_
        rw [mapItems_eq_map, depthItems_le_iff, depthItems_le_iff, List.forall_mem_map]
        exact forall₂_congr fun item hitem => by rw [ih item hitem]
      rw [mapNumbers, depthWith, depthWith, hdepth, mapItems_eq_map, List.isEmpty_map]
  | object pairs ih =>
      have hdepth : depthPairs flat (mapPairs f pairs) = depthPairs flat pairs := by
        refine eq_of_forall_ge_iff fun n => ?_
        rw [mapPairs_eq_map, depthPairs_le_iff, depthPairs_le_iff, List.forall_mem_map]
        exact forall₂_congr fun pair hpair => by rw [ih pair hpair]
      rw [mapNumbers, depthWith, depthWith, hdepth, mapPairs_eq_map, List.isEmpty_map]
  | null | boolean | number | string | binary | date | time | timestamp => rfl

/-- Something that is written in one piece, an empty array, an empty object or an extended entry,
stands inside of exactly `n` arrays and objects. -/
inductive FlatAt : Nat → Entry → Prop where
  | emptyArray : FlatAt 0 (.array [])
  | emptyObject : FlatAt 0 (.object ⟨[]⟩)
  | extended {e : Entry} (h : e.kind.isExtended = true) : FlatAt 0 e
  | item {n : Nat} {item : Entry} {items : List Entry} (mem : item ∈ items)
    (inside : FlatAt n item) : FlatAt (n + 1) (.array items)
  | member {n : Nat} {pair : String × Entry} {pairs : List (String × Entry)} (mem : pair ∈ pairs)
    (inside : FlatAt n pair.2) : FlatAt (n + 1) (.object ⟨pairs⟩)

variable {n : Nat} {items : List Entry} {pairs : List (String × Entry)}

theorem flatAt_succ_array_iff : FlatAt (n + 1) (.array items) ↔ ∃ item ∈ items, FlatAt n item := by
  constructor
  · intro h
    cases h with
    | item hmem hinside => exact ⟨_, hmem, hinside⟩
  · intro h
    obtain ⟨item, hmem, hinside⟩ := h
    exact .item hmem hinside

theorem flatAt_succ_object_iff :
    FlatAt (n + 1) (.object ⟨pairs⟩) ↔ ∃ pair ∈ pairs, FlatAt n pair.2 := by
  constructor
  · intro h
    cases h with
    | member hmem hinside => exact ⟨_, hmem, hinside⟩
  · intro h
    obtain ⟨pair, hmem, hinside⟩ := h
    exact .member hmem hinside

theorem succ_lt_depth_array_iff {flat : Nat} (hflat : flat ≤ 1) :
    n + 1 < depthWith flat (.array items) ↔ ∃ item ∈ items, n < depthWith flat item := by
  rw [depthWith]
  split
  · next hempty =>
      rw [List.isEmpty_iff] at hempty
      subst hempty
      exact iff_of_false (by omega) (by simp)
  · rw [Nat.add_lt_add_iff_right, lt_depthItems_iff]

theorem succ_lt_depth_object_iff {flat : Nat} (hflat : flat ≤ 1) :
    n + 1 < depthWith flat (.object ⟨pairs⟩) ↔ ∃ pair ∈ pairs, n < depthWith flat pair.2 := by
  rw [depthWith]
  split
  · next hempty =>
      rw [List.isEmpty_iff] at hempty
      subst hempty
      exact iff_of_false (by omega) (by simp)
  · rw [Nat.add_lt_add_iff_right, lt_depthPairs_iff]

/-- More than `n` levels are read just when more are written, or when something stands in one piece
behind `n` of them. -/
theorem lt_readingDepth_iff {e : Entry} :
    ∀ {n}, n < e.readingDepth ↔ n < e.writingDepth ∨ e.FlatAt n := by
  induction e using byShape with
  | array items ih =>
      intro n
      cases n with
      | zero =>
          refine iff_of_true (readingDepth_array items ▸ Nat.zero_lt_succ _) ?_
          cases items with
          | nil => exact Or.inr .emptyArray
          | cons item items => exact Or.inl (Nat.zero_lt_succ _)
      | succ n =>
          rw [readingDepth, writingDepth, succ_lt_depth_array_iff (Nat.le_refl 1),
            succ_lt_depth_array_iff (Nat.zero_le 1), flatAt_succ_array_iff, ← exists_or]
          refine exists_congr fun item => ?_
          rw [← and_or_left]
          exact and_congr_right fun hitem => ih item hitem
  | object pairs ih =>
      intro n
      cases n with
      | zero =>
          refine iff_of_true (readingDepth_object pairs ▸ Nat.zero_lt_succ _) ?_
          cases pairs with
          | nil => exact Or.inr .emptyObject
          | cons pair pairs => exact Or.inl (Nat.zero_lt_succ _)
      | succ n =>
          rw [readingDepth, writingDepth, succ_lt_depth_object_iff (Nat.le_refl 1),
            succ_lt_depth_object_iff (Nat.zero_le 1), flatAt_succ_object_iff, ← exists_or]
          refine exists_congr fun pair => ?_
          rw [← and_or_left]
          exact and_congr_right fun hpair => ih pair hpair
  | null | boolean | number | string =>
      intro n
      refine iff_of_false (Nat.not_lt_zero n) ?_
      rintro (h | h)
      · exact Nat.not_lt_zero n h
      · cases h with
        | extended h => cases h
  | binary | date | time | timestamp =>
      intro n
      rw [show readingDepth _ = 1 from rfl, Nat.lt_one_iff]
      constructor
      · rintro rfl
        exact Or.inr (.extended rfl)
      · rintro (h | h)
        · exact absurd h (Nat.not_lt_zero n)
        · cases h
          rfl

/-! ## Spellings of what is written -/

theorem exists_spelling (options : WriterOptions) {e : Entry} (hkeys : e.DistinctKeys)
    (hplain : e.Unambiguous) (hnumbers : e.NumbersSatisfy Decimal.Spellable) :
    ∃ s : Spelling, s.text = renderPieces options (e.layout 0) ∧ s.depth = e.readingDepth ∧
      s.ExponentsWithin 0 ∧ s.meaning? = some e.settled := by
  obtain ⟨s, htext, hdepth, hexponents, hmeaning⟩ :=
    spelled ⟨e.readingDepth, 0⟩ options e e.readingDepth 0 ⟨hkeys, hplain, Nat.le_refl _⟩ hnumbers
  refine ⟨s, htext, Nat.le_antisymm hdepth ?_, hexponents, hmeaning⟩
  -- no spelling nests less than what it means
  have hreadable : e.settled.Readable s.depth :=
    .of_fits ⟨s.depth, 0⟩ s.depth s _ ⟨Nat.le_refl _, hexponents, hmeaning⟩
  calc e.readingDepth = e.settled.readingDepth := (depthWith_mapNumbers 1 _ e).symm
    _ ≤ s.depth := hreadable.depth

theorem parseEntry_layout_eq_depthLimit_iff (options : WriterOptions) (limits : ParserOptions)
    {e : Entry} (hkeys : e.DistinctKeys) (hplain : e.Unambiguous)
    (hnumbers : e.NumbersSatisfy Decimal.Spellable) :
    parseEntry (String.ofList (renderPieces options (e.layout 0))) limits =
        .error (.depthLimit limits.maxDepth) ↔ limits.maxDepth < e.readingDepth := by
  obtain ⟨s, htext, hdepth, hexponents, hmeaning⟩ :=
    exists_spelling options hkeys hplain hnumbers
  have hdocument : Document.text ⟨.empty, s, .empty⟩ = s.text := List.append_nil _
  rw [← hdepth, ← htext, ← hdocument]
  exact parseEntry_document_eq_depthLimit_iff
    (fun n hn => (hexponents n hn).trans (Nat.zero_le _)) hmeaning

theorem renderPieces_compact (indent limit : Nat) (pieces : List Piece) :
    renderPieces ⟨.compact, indent, limit⟩ pieces = renderPieces {} pieces := by
  refine List.flatMap_congr fun piece _ => ?_
  cases piece <;> rfl

/-- Reading the text of an entry ends at the limit just when writing the entry ends at the same
limit, or when something that is written in one piece stands where the limit is reached. -/
theorem depthLimits_agree_but_flat {e : Entry} (hkeys : e.DistinctKeys) (hplain : e.Unambiguous)
    (hnumbers : e.NumbersSatisfy fun d => ¬(d.scale < 0 ∧ d.unscaled = 0)) :
    ∃ text : String,
      (∀ indent limit, e.writingDepth ≤ limit → e.write ⟨.compact, indent, limit⟩ = .ok text) ∧
      ∀ (limits : ParserOptions) (options : WriterOptions), options.maxDepth = limits.maxDepth →
        (parseEntry text limits = .error (.depthLimit limits.maxDepth) ↔
          e.write options = .error (.depthLimit options.maxDepth) ∨ e.FlatAt limits.maxDepth) := by
  simp only [← Decimal.spellable_iff] at hnumbers
  refine ⟨String.ofList (renderPieces {} (e.layout 0)), fun indent limit hlimit => ?_,
    fun limits options hlimit => ?_⟩
  · rw [write_eq_ok_iff, renderPieces_compact]
    exact ⟨hplain, hlimit, rfl⟩
  · rw [hplain.write_eq_depthLimit_iff, hlimit, ← lt_readingDepth_iff]
    exact parseEntry_layout_eq_depthLimit_iff {} limits hkeys hplain hnumbers

/-- An empty array inside of two arrays is one level too deep for a reader with two, and for no
writer with two. -/
theorem depthLimits_agree_but_flat_nested :
    let e : Entry := .array [.array [.array []]]
    (∀ indent limit, 2 ≤ limit → e.write ⟨.compact, indent, limit⟩ = .ok "[[[]]]") ∧
      e.FlatAt 2 ∧ parseEntry "[[[]]]" ⟨2, 0⟩ = .error (.depthLimit 2) := by
  intro e
  have hkeys : e.DistinctKeys := by simp [e, distinctKeys_array_iff]
  have hplain : e.Unambiguous := by simp [e, unambiguous_array_iff]
  have hnumbers : e.NumbersSatisfy fun d => ¬(d.scale < 0 ∧ d.unscaled = 0) := by
    simp [e, numbersSatisfy_array_iff]
  have hflat : e.FlatAt 2 :=
    .item List.mem_cons_self (.item List.mem_cons_self .emptyArray)
  obtain ⟨text, hwrite, hread⟩ := depthLimits_agree_but_flat hkeys hplain hnumbers
  have htext : text = "[[[]]]" := by
    have hdefault : e.write = .ok "[[[]]]" := by rfl
    rw [hwrite 3 512 (by decide)] at hdefault
    exact Except.ok.inj hdefault
  rw [htext] at hwrite hread
  exact ⟨hwrite, hflat, (hread ⟨2, 0⟩ ⟨.compact, 3, 2⟩ rfl).mpr (Or.inr hflat)⟩

/-- A date without payload in an array: one level is enough to write it and too few to read it. -/
theorem depthLimits_differ :
    ¬ ∀ e : Entry, e.DistinctKeys → e.Unambiguous →
      (e.NumbersSatisfy fun d => ¬(d.scale < 0 ∧ d.unscaled = 0)) → ∀ text,
        e.write ⟨.compact, 3, pow2 64 - 1⟩ = .ok text → ∀ limit,
          (e.write ⟨.compact, 3, limit⟩ = .error (.depthLimit limit) ↔
            parseEntry text ⟨limit, 1024⟩ = .error (.depthLimit limit)) := by
  intro h
  have hreadable : (array [.date none]).Readable 2 :=
    readable_array_iff.mpr (List.forall_mem_singleton.mpr (.of_extended (by simp [kind])))
  have hnumbers : (array [.date none]).NumbersSatisfy fun d => ¬(d.scale < 0 ∧ d.unscaled = 0) :=
    numbersSatisfy_array_iff.mpr
      (List.forall_mem_singleton.mpr ((everywhere_leaf_iff (by simp) (by simp)).mpr trivial))
  have hspell := hnumbers
  simp only [← Decimal.spellable_iff] at hspell
  have hread : parseEntry "[\x7b\"%dt%\":null\x7d]" ⟨1, 1024⟩ = .error (.depthLimit 1) :=
    (parseEntry_layout_eq_depthLimit_iff {} ⟨1, 1024⟩ hreadable.keys
      hreadable.plain hspell).mpr (by decide)
  have hrefused := (h _ hreadable.keys hreadable.plain hnumbers _ rfl 1).mpr hread
  rw [hreadable.plain.write_eq_depthLimit_iff] at hrefused
  exact absurd hrefused (by decide)

end Entry

end ExtendedJson
