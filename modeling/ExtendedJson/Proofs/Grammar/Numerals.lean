import ExtendedJson.Proofs.Grammar.Meanings

/-!
# The numbers in a document

Every number in the meaning of a document is the value of a numeral in it, and every numeral stands
in the text as a whole. No number comes from anywhere else: a wrapper is decoded to an entry without
numbers, and a key that comes twice only drops some.
-/

namespace ExtendedJson

namespace Grammar

namespace Spelling

/-- Induction over spellings, with the hypothesis for all items of an array and all values of an
object. -/
@[elab_as_elim]
theorem byShape {P : Spelling → Prop} (null : P .null) (boolean : ∀ value, P (.boolean value))
    (number : ∀ token, P (.number token)) (string : ∀ token, P (.string token))
    (array : ∀ gap items, (∀ p ∈ items, P p.item) → P (.array gap items))
    (object : ∀ gap members, (∀ m ∈ members, P m.2.item) → P (.object gap members)) : ∀ s, P s
  | .null => null
  | .boolean value => boolean value
  | .number token => number token
  | .string token => string token
  | .array gap items => array gap items fun p _ =>
    byShape null boolean number string array object p.item
  | .object gap members => object gap members fun m _ =>
    byShape null boolean number string array object m.2.item
termination_by s => sizeOf s
decreasing_by
  · rename_i h
    have hmem := List.sizeOf_lt_of_mem h
    have hitem : sizeOf p.item < sizeOf p := by
      obtain ⟨before, item, after⟩ := p
      simp only [Placed.mk.sizeOf_spec]
      omega
    simp only [Spelling.array.sizeOf_spec]
    omega
  · rename_i h
    have hmem := List.sizeOf_lt_of_mem h
    have hvalue : sizeOf m.2.item < sizeOf m := by
      obtain ⟨key, before, value, after⟩ := m
      simp only [Prod.mk.sizeOf_spec, Placed.mk.sizeOf_spec]
      omega
    simp only [Spelling.object.sizeOf_spec]
    omega

end Spelling

/-! ## Numerals in the text -/

theorem infix_listed {text : List Char} {texts : List (List Char)} (h : text ∈ texts) :
    text <:+: listed texts := by
  induction texts with
  | nil => simp at h
  | cons first texts ih =>
      rcases List.mem_cons.mp h with rfl | h
      · obtain ⟨behind, hbehind⟩ := exists_listed_eq_append text texts
        exact hbehind ▸ (List.prefix_append _ _).isInfix
      · rw [listed_cons _ (List.ne_nil_of_mem h)]
        exact (ih h).trans ((List.suffix_cons _ _).trans (List.suffix_append _ _)).isInfix

theorem Placed.infix_textBy {α : Type} (text : α → List Char) (p : Placed α) :
    text p.item <:+: p.textBy text :=
  ⟨p.before.text, p.after.text, by simp [textBy]⟩

theorem infix_bracketed (opening closing : Char) (gap : Gap) (inner : List Char) :
    inner <:+: opening :: (gap.text ++ (inner ++ [closing])) :=
  ⟨opening :: gap.text, [closing], by simp⟩

namespace Spelling

/-- By induction on the spelling: a numeral stands in its item or value, and that in the text. -/
theorem infix_of_mem_numerals {n : Numeral} {s : Spelling} (h : n ∈ s.numerals) :
    n.text <:+: s.text := by
  induction s using byShape with
  | null | boolean | string => simp [numerals] at h
  | number token =>
      rw [List.mem_singleton.mp h]
      exact List.infix_rfl
  | array gap items ih =>
      obtain ⟨p, hp, hn⟩ := mem_numerals_array_iff.mp h
      rw [text, itemTexts_eq_map]
      have hitem : n.text <:+: p.textBy text := (ih p hp hn).trans (p.infix_textBy text)
      have hlisted : p.textBy text <:+: listed (items.map (Placed.textBy text)) :=
        infix_listed (List.mem_map_of_mem hp)
      exact (hitem.trans hlisted).trans (infix_bracketed '[' ']' gap _)
  | object gap members ih =>
      obtain ⟨m, hm, hn⟩ := mem_numerals_object_iff.mp h
      rw [text, memberTexts_eq_map]
      have hvalue : n.text <:+: m.2.textBy text := (ih m hm hn).trans (m.2.infix_textBy text)
      have hmember : m.2.textBy text <:+: memberText m :=
        ((List.suffix_cons _ _).trans (List.suffix_append _ _)).isInfix
      have hlisted : memberText m <:+: listed (members.map memberText) :=
        infix_listed (List.mem_map_of_mem hm)
      exact ((hvalue.trans hmember).trans hlisted).trans (infix_bracketed '\x7b' '\x7d' gap _)

end Spelling

end Grammar

open Grammar

/-! ## Numbers in the meaning -/

namespace Entry

variable {Q : Decimal → Prop}

theorem NumbersSatisfy.of_extended {e : Entry}
    (h : e.kind = .binary ∨ e.kind = .date ∨ e.kind = .time ∨ e.kind = .timestamp) :
    e.NumbersSatisfy Q := by
  cases e with
  | null | boolean | number | string | array | object => simp [kind] at h
  | binary | date | time | timestamp =>
      exact (everywhere_leaf_iff (by simp) (by simp)).mpr trivial

/-- Merging pairs drops values and adds none. -/
theorem NumbersSatisfy.merged {pairs : List (String × Entry)}
    (h : ∀ pair ∈ pairs, pair.2.NumbersSatisfy Q) :
    (object ⟨Members.merged pairs⟩).NumbersSatisfy Q := by
  refine numbersSatisfy_object_iff.mpr fun pair hpair => ?_
  rw [← Members.pairs_ofPairs] at hpair
  exact h pair (Members.mem_ofPairs hpair)

theorem NumbersSatisfy.of_standsFor {pairs : List (String × Entry)} {e : Entry}
    (h : ∀ pair ∈ pairs, pair.2.NumbersSatisfy Q)
    (hstands : standsFor? (Members.merged pairs) = some e) : e.NumbersSatisfy Q := by
  rcases ofObject_cases (ofObject_eq_ok_iff.mpr hstands) with ⟨-, rfl⟩ | hextended
  · exact .merged h
  · exact .of_extended hextended

/-- What holds of the values of all numerals of a spelling holds of all numbers of its meaning. -/
theorem NumbersSatisfy.of_meaning {s : Spelling} :
    ∀ {e : Entry}, (∀ n ∈ s.numerals, Q n.value) → s.meaning? = some e → e.NumbersSatisfy Q := by
  induction s using Spelling.byShape with
  | null | boolean | string =>
      intro e _ hmeaning
      injection hmeaning with hmeaning
      rw [← hmeaning]
      exact (everywhere_leaf_iff (by simp) (by simp)).mpr trivial
  | number token =>
      intro e h hmeaning
      injection hmeaning with hmeaning
      rw [← hmeaning]
      exact numbersSatisfy_number_iff.mpr (h token List.mem_cons_self)
  | array gap items ih =>
      intro e h hmeaning
      rw [Spelling.meaning?] at hmeaning
      split at hmeaning
      · cases hmeaning
      · next entries hentries =>
          injection hmeaning with hmeaning
          rw [← hmeaning, numbersSatisfy_array_iff]
          refine forall_mem_of_forall₂ (Spelling.itemMeanings?_eq_some_iff.mp hentries)
            fun p hp entry hentry => ?_
          exact ih p hp (fun n hn => h n (Spelling.mem_numerals_array_iff.mpr ⟨p, hp, hn⟩)) hentry
  | object gap members ih =>
      intro e h hmeaning
      rw [Spelling.meaning?] at hmeaning
      split at hmeaning
      · cases hmeaning
      · next pairs hpairs =>
          refine .of_standsFor (forall_mem_of_forall₂
            (Spelling.memberMeanings?_eq_some_iff.mp hpairs) fun m hm pair hpair => ?_) hmeaning
          exact ih m hm (fun n hn => h n (Spelling.mem_numerals_object_iff.mpr ⟨m, hm, hn⟩)) hpair.2

end Entry

theorem Grammar.Spelling.numbers_of_meaning {s : Spelling} {e : Entry} (h : s.meaning? = some e) :
    e.NumbersSatisfy fun d => ∃ n ∈ s.numerals, n.value = d :=
  .of_meaning (fun n hn => ⟨n, hn, rfl⟩) h

/-- The same of the object that the members make, also where that would be a wrapper. -/
theorem Grammar.Spelling.numbers_of_members {gap : Gap}
    {members : List (Placed Quoted × Placed Spelling)} {pairs : List (String × Entry)}
    (h : memberMeanings? members = some pairs) :
    (Entry.object ⟨Members.merged pairs⟩).NumbersSatisfy
      fun d => ∃ n ∈ (object gap members).numerals, n.value = d :=
  .merged (forall_mem_of_forall₂ (memberMeanings?_eq_some_iff.mp h) fun m hm _ hpair =>
    .of_meaning (fun n hn => ⟨n, mem_numerals_object_iff.mpr ⟨m, hm, hn⟩, rfl⟩) hpair.2)

end ExtendedJson
