import ExtendedJson.Proofs.Grammar.Documents
import ExtendedJson.Proofs.Grammar.Writing

/-!
# What is written and not read

The text of a zero of negative scale begins with two zeros, and a reader takes the first of them for
the whole number. It fails at the second, where neither a comma nor the end of a bracket or of the
text stands. Around such a number every array and every object fails, because what stands in front
of it is read just as it was written.
-/

namespace ExtendedJson

open Grammar

/-! ## Parts that are not read -/

/-- A reader does not get from the front of a text to a place where a part may end. -/
def Balks {α : Type} (part : Reader α) (text : List Char) : Prop :=
  ∀ (gap : Gap) (c : Cursor) (rest : List Char) (t : Taken c α), Stops rest →
    afterBlanks c.rest = afterBlanks (text ++ (gap.text ++ rest)) → part c = .ok t →
      ¬ Stops (afterBlanks t.after.rest)

/-- A text that begins with something else than a closing bracket. -/
def Opens (closing : Char) (text : List Char) : Prop :=
  ∃ (gap : Gap) (first : Char) (tail : List Char), text = gap.text ++ first :: tail ∧
    Text.isLayout first = false ∧ first ≠ closing

theorem Opens.head?_ne {closing : Char} {text : List Char} (h : Opens closing text)
    (rest : List Char) : (afterBlanks (text ++ rest)).head? ≠ some closing := by
  obtain ⟨gap, first, tail, rfl, hblank, hne⟩ := h
  rw [List.append_assoc, afterBlanks_gap, List.cons_append, afterBlanks_cons hblank, List.head?_cons,
    ne_eq, Option.some.injEq]
  exact hne

theorem Opens.append {closing : Char} {text : List Char} (h : Opens closing text)
    (rest : List Char) : Opens closing (text ++ rest) := by
  obtain ⟨gap, first, tail, rfl, hblank, hne⟩ := h
  exact ⟨gap, first, tail ++ rest, by rw [List.append_assoc, List.cons_append], hblank, hne⟩

section Parts

variable {α β Y : Type} {part : Reader α} {text : Y → List Char} {means : Y → α → Prop}
  {brackets : Brackets} {row : β → List Char}

theorem readParts_ne_ok_of_not_stops
    (hclosing : brackets.closing = ']' ∨ brackets.closing = '\x7d') {soFar : List α} {c : Cursor}
    {t : Taken c α} (ht : part c = .ok t) (hstops : ¬ Stops (afterBlanks t.after.rest))
    (read : List α × Cursor) : readParts part brackets soFar c ≠ .ok read := by
  intro hread
  rw [readParts, ht] at hread
  simp only at hread
  split at hread
  · simp at hread
  · next mark rest hnext =>
      rw [← Cursor.rest_skipLayout, hnext] at hstops
      split at hread
      · next hcomma => exact hstops (stops_cons (Or.inl hcomma) rest)
      · split at hread
        · next hclose => exact hstops (stops_cons (Or.inr (hclose ▸ hclosing)) rest)
        · simp at hread

/-- When one of the rows is not read, none of the text up to the bracket is. -/
theorem readParts_ne_ok (hp : Reads part text means)
    (hclosing : brackets.closing = ']' ∨ brackets.closing = '\x7d') {parts : List β}
    (h : ∀ p ∈ parts, (∀ behind : Gap, ∃ y a, text y = row p ++ behind.text ∧ means y a) ∨
      Balks part (row p))
    (hbalks : ∃ p ∈ parts, Balks part (row p)) (behind : Gap) (rest : List Char) :
    ∀ (soFar : List α) (c : Cursor),
      afterBlanks c.rest =
        afterBlanks (listed (parts.map row) ++ (behind.text ++ brackets.closing :: rest)) →
      ∀ read, readParts part brackets soFar c ≠ .ok read := by
  induction parts with
  | nil =>
      obtain ⟨p, hp, -⟩ := hbalks
      simp at hp
  | cons first parts ih =>
      intro soFar c hc read hread
      rw [List.forall_mem_cons] at h
      have hfirst : ∃ t, part c = .ok t := by
        rw [readParts] at hread
        split at hread
        · simp at hread
        · next t ht => exact ⟨t, ht⟩
      obtain ⟨t, ht⟩ := hfirst
      by_cases hparts : parts = []
      · subst hparts
        obtain ⟨p, hp, hbad⟩ := hbalks
        rw [List.mem_singleton] at hp
        subst hp
        exact readParts_ne_ok_of_not_stops hclosing ht
          (hbad behind c _ t (stops_cons (Or.inr hclosing) rest) hc ht) read hread
      · rw [List.map_cons, listed_cons _ (by simpa using hparts), List.append_assoc,
          List.cons_append] at hc
        by_cases hbad : Balks part (row first)
        · exact readParts_ne_ok_of_not_stops hclosing ht
            (hbad .empty c _ t (stops_cons (Or.inl rfl) _) hc ht) read hread
        · obtain ⟨y, a, htext, hy⟩ := (h.1.resolve_right hbad) .empty
          rw [show row first = text y by rw [htext]; exact (List.append_nil _).symm] at hc
          obtain ⟨t', ht', -, hrest⟩ := hp.complete hy (stops_cons (Or.inl rfl) _) hc
          rw [ht] at ht'
          injection ht' with ht'
          subst ht'
          obtain ⟨hgo, hafter⟩ := readParts_of_comma ht hrest soFar
          have hlater : ∃ p ∈ parts, Balks part (row p) := by
            obtain ⟨p, hp, hbad'⟩ := hbalks
            rcases List.mem_cons.mp hp with rfl | hp
            · exact absurd hbad' hbad
            · exact ⟨p, hp, hbad'⟩
          rw [hgo] at hread
          exact ih h.2 hlater _ _ (by rw [hafter]) read hread

theorem readBracketed_ne_ok (hp : Reads part text means)
    (hclosing : brackets.closing = ']' ∨ brackets.closing = '\x7d') (parts : List β)
    (row : β → List Char) (behind : Gap) (rest : List Char)
    (h : ∀ p ∈ parts, (∀ behind : Gap, ∃ y a, text y = row p ++ behind.text ∧ means y a) ∨
      Balks part (row p))
    (hbalks : ∃ p ∈ parts, Balks part (row p))
    (hopens : ∀ p ∈ parts, Opens brackets.closing (row p))
    {c : Cursor} (hc : c.step.rest =
      listed (parts.map row) ++ (behind.text ++ brackets.closing :: rest))
    (read : List α × Cursor) : readBracketed part brackets c ≠ .ok read := by
  intro hread
  unfold readBracketed at hread
  simp only at hread
  split at hread
  · next hhead =>
      rw [Cursor.rest_skipLayout, hc] at hhead
      obtain ⟨first, parts, rfl⟩ := List.exists_cons_of_ne_nil (l := parts) (by
        rintro rfl
        simp at hbalks)
      obtain ⟨behind', hlisted⟩ := exists_listed_eq_append (row first) (parts.map row)
      rw [List.map_cons, hlisted, List.append_assoc] at hhead
      exact (hopens first List.mem_cons_self).head?_ne _ hhead
  · split at hread
    · simp at hread
    · next found hfound =>
        refine readParts_ne_ok hp hclosing h hbalks behind rest [] c.step.skipLayout ?_ _ hfound
        rw [Cursor.rest_skipLayout, afterBlanks_idem, hc]

end Parts

/-! ## Numbers -/

theorem Decimal.plain_of_not_spellable {d : Decimal} (h : ¬ d.Spellable) :
    ∃ zeros, d.plain = '0' :: '0' :: zeros := by
  have hscale : d.scale < 0 := by
    by_cases hscale : d.scale < 0
    · exact hscale
    · exact absurd (Or.inl (by omega)) h
  have hunscaled : d.unscaled = 0 := by
    by_cases hunscaled : d.unscaled = 0
    · exact hunscaled
    · exact absurd (Or.inr hunscaled) h
  obtain ⟨places, hplaces⟩ : ∃ places, (-d.scale).toNat = places + 1 :=
    ⟨(-d.scale).toNat - 1, by omega⟩
  refine ⟨List.replicate places '0', ?_⟩
  rw [Decimal.plain, if_pos (by omega), hplaces, Decimal.signText, Decimal.digitText, hunscaled]
  rfl

/-- Behind a leading zero a number has no more digits. -/
theorem Grammar.Numeral.text_of_zero {n : Numeral} {tail rest : List Char}
    (h : '0' :: '0' :: tail = n.text ++ rest) : rest = '0' :: tail := by
  obtain ⟨digit, digits, hwhole, -⟩ := n.whole.exists_cons
  have hzero : n.signText = [] ∧ digit = '0' := by
    rw [Numeral.text, hwhole] at h
    unfold Numeral.signText at h ⊢
    cases hsign : n.negative with
    | true => simp [hsign] at h
    | false =>
        simp only [hsign] at h
        exact ⟨rfl, (List.cons.inj h).1.symm⟩
  have hlone : n.whole.text = ['0'] := n.noLeadingZero (by rw [hwhole, hzero.2]; rfl)
  rw [Numeral.text, hzero.1, hlone] at h
  have htail : '0' :: tail = (n.fractionText ++ n.exponentText) ++ rest := (List.cons.inj h).2
  have hfraction : n.fractionText = [] := by
    unfold Numeral.fractionText at htail ⊢
    cases hfraction : n.fraction with
    | none => rfl
    | some run => simp [hfraction] at htail
  have hexponent : n.exponentText = [] := by
    rw [hfraction] at htail
    unfold Numeral.exponentText at htail ⊢
    cases hexponent : n.exponent with
    | none => rfl
    | some e =>
        simp only [hexponent, Exponent.text, List.nil_append, List.cons_append] at htail
        have hmark := (List.cons.inj htail).1
        rcases e.mark_mem with hmark' | hmark' <;> simp [hmark'] at hmark
  rw [hfraction, hexponent] at htail
  exact htail.symm

namespace Entry

variable {limits : ParserOptions} {options : WriterOptions} {levels level : Nat}

theorem balks_number {d : Decimal} (h : ¬ d.Spellable) :
    Balks (readValue limits levels) (renderPieces options ((number d).layout level)) := by
  intro gap c rest t _ hc ht hstops
  obtain ⟨zeros, hzeros⟩ := Decimal.plain_of_not_spellable h
  have htext : renderPieces options ((number d).layout level) = '0' :: '0' :: zeros := by
    rw [layout, ← hzeros]
    exact List.append_nil _
  obtain ⟨p, hp, hfits⟩ := (reads_value limits levels).sound ht
  rw [htext, hp, Placed.textBy, List.append_assoc, List.append_assoc, afterBlanks_gap,
    afterBlanks_spelling, List.cons_append, afterBlanks_cons rfl] at hc
  cases hitem : p.item with
  | number n =>
      rw [hitem] at hc
      have hbehind := Numeral.text_of_zero hc.symm
      have hzero : afterBlanks t.after.rest = '0' :: (zeros ++ (gap.text ++ rest)) := by
        rw [← afterBlanks_idem, ← afterBlanks_gap p.after, hbehind]
        exact afterBlanks_cons rfl _
      rw [hzero] at hstops
      exact absurd (hstops '0' rfl) (by decide)
  | boolean value => cases value <;> simp [hitem, Spelling.text] at hc
  | null | string _ | array _ _ | object _ _ =>
      simp [hitem, Spelling.text, Quoted.text] at hc

/-! ## Rows -/

theorem exists_cons_plain (d : Decimal) :
    ∃ first tail, d.plain = first :: tail ∧ (first = '-' ∨ first.isDigit) := by
  by_cases h : d.Spellable
  · obtain ⟨n, htext, -⟩ := Decimal.exists_numeral h
    rw [← htext]
    exact n.exists_cons
  · obtain ⟨zeros, hzeros⟩ := Decimal.plain_of_not_spellable h
    exact ⟨'0', _, hzeros, Or.inr rfl⟩

/-- What is written for an entry begins with neither a blank nor a closing bracket. -/
theorem opens_layout (options : WriterOptions) (level : Nat) (e : Entry) :
    Opens ']' (renderPieces options (e.layout level)) := by
  suffices ∃ first tail, renderPieces options (e.layout level) = first :: tail ∧
      Text.isLayout first = false ∧ first ≠ ']' by
    obtain ⟨first, tail, htext, hfirst⟩ := this
    exact ⟨.empty, first, tail, htext, hfirst⟩
  cases e with
  | number d =>
      obtain ⟨first, tail, htext, hfirst⟩ := exists_cons_plain d
      refine ⟨first, tail, ?_, isLayout_of_numeral hfirst, ?_⟩
      · rw [layout, ← htext]
        exact List.append_nil _
      · rintro rfl
        exact absurd hfirst (by decide)
  | array items => cases items <;> exact ⟨'[', _, rfl, rfl, by decide⟩
  | object members =>
      obtain ⟨pairs⟩ := members
      cases pairs <;> exact ⟨'\x7b', _, rfl, rfl, by decide⟩
  | boolean value => cases value <;> exact ⟨_, _, rfl, rfl, by decide⟩
  | null => exact ⟨'n', _, rfl, rfl, by decide⟩
  | string => exact ⟨'"', _, rfl, rfl, by decide⟩
  | binary | date | time | timestamp => exact ⟨'\x7b', _, rfl, rfl, by decide⟩

theorem balks_itemRow {item : Entry}
    (h : Balks (readValue limits levels) (renderPieces options (item.layout level))) :
    Balks (readValue limits levels) (renderPieces options (itemRow level item)) := by
  intro gap c rest t hstops hc
  refine h gap c rest t hstops ?_
  rw [hc, show renderPieces options (Entry.itemRow level item) = (lineGap options level).text ++
    renderPieces options (item.layout level) from rfl, List.append_assoc, afterBlanks_gap]

theorem balks_memberRow {entry : Reader Entry} {value : Entry}
    (h : Balks entry (renderPieces options (value.layout level))) (key : String) :
    Balks (readMember entry) (renderPieces options (memberRow level (key, value))) := by
  intro gap c rest t hstops hc ht
  obtain ⟨q, hq, -⟩ := exists_quoted key.toList
  let placed : Placed Quoted := ⟨lineGap options level, q, .empty⟩
  have hkey : afterBlanks c.rest = afterBlanks (placed.textBy Quoted.text ++
      ':' :: (renderPieces options (value.layout level) ++ (gap.text ++ rest))) := by
    rw [hc, renderPieces_memberRow, Placed.textBy, hq]
    simp [placed, Gap.empty]
  obtain ⟨colon, hread, hcolon⟩ := readKey_complete _ hkey
  unfold readMember at ht
  split at ht
  · simp at ht
  · next key' colon' hread' =>
      rw [hread] at hread'
      injection hread' with hread'
      injection hread' with hname hcolon'
      subst hcolon'
      split at ht
      · simp at ht
      · next taken htaken =>
          injection ht with ht
          rw [← ht]
          exact h gap _ rest taken hstops (by rw [hcolon]) htaken

theorem opens_itemRow (item : Entry) :
    Opens ']' (renderPieces options (Entry.itemRow level item)) := by
  obtain ⟨gap, first, tail, htext, hblank, hne⟩ := opens_layout options level item
  refine ⟨⟨(lineGap options level).text ++ gap.text, ?_⟩, first, tail, ?_, hblank, hne⟩
  · intro c hc
    rcases List.mem_append.mp hc with hc | hc
    · exact (lineGap options level).blank c hc
    · exact gap.blank c hc
  · rw [List.append_assoc, ← htext]
    rfl

theorem opens_memberRow (pair : String × Entry) :
    Opens '\x7d' (renderPieces options (Entry.memberRow level pair)) :=
  ⟨lineGap options level, '"', _, renderPieces_memberRow pair.1 pair.2, rfl, by decide⟩

/-! ## Arrays and objects -/

/-- An entry is spelled, or else no reader gets past it. -/
def SpelledOrBalks (limits : ParserOptions) (options : WriterOptions) (levels level : Nat)
    (e : Entry) : Prop :=
  Spelled limits options levels level e ∨
    Balks (readValue limits levels) (renderPieces options (e.layout level))

theorem readArray_ne_ok {items : List Entry}
    (h : ∀ item ∈ items, SpelledOrBalks limits options levels (level + 1) item)
    (hbalks : ∃ item ∈ items,
      Balks (readValue limits levels) (renderPieces options (item.layout (level + 1))))
    {c : Cursor} {rest : List Char}
    (hc : c.rest = renderPieces options ((array items).layout level) ++ rest)
    (read : List Entry × Cursor) :
    ExtendedJson.readArray limits (itemReader? limits (levels + 1)) c ≠ .ok read := by
  have hitems : items ≠ [] := by
    rintro rfl
    simp at hbalks
  rw [itemReader?, ExtendedJson.readArray]
  refine readBracketed_ne_ok (reads_value limits levels) (Or.inl rfl) items
    (fun item => renderPieces options (Entry.itemRow (level + 1) item)) (lineGap options level) rest
    (fun item hitem => ?_) ?_ (fun item _ => opens_itemRow item) ?_ read
  · rcases h item hitem with hspelled | hbalk
    · left
      intro behind
      obtain ⟨p, htext, hfits⟩ := hspelled.placed behind
      exact ⟨p, _, htext, hfits⟩
    · exact Or.inr (balks_itemRow hbalk)
  · obtain ⟨item, hitem, hbalk⟩ := hbalks
    exact ⟨item, hitem, (balks_itemRow hbalk)⟩
  · rw [Cursor.rest_step, hc, layout_array hitems,
      renderPieces_bracketed options (by simpa using hitems)]
    simp [Brackets.square, Function.comp_def]

theorem readObject_ne_ok {pairs : List (String × Entry)}
    (h : ∀ pair ∈ pairs, SpelledOrBalks limits options levels (level + 1) pair.2)
    (hbalks : ∃ pair ∈ pairs,
      Balks (readValue limits levels) (renderPieces options (pair.2.layout (level + 1))))
    {c : Cursor} {rest : List Char}
    (hc : c.rest = renderPieces options ((object ⟨pairs⟩).layout level) ++ rest)
    (read : Object × Cursor) :
    ExtendedJson.readObject limits (itemReader? limits (levels + 1)) c ≠ .ok read := by
  have hpairs : pairs ≠ [] := by
    rintro rfl
    simp at hbalks
  have hmembers : ∀ found,
      readBracketed (readMember (readValue limits levels)) .curly c ≠ .ok found := by
    intro found
    refine readBracketed_ne_ok (reads_member (reads_value limits levels)) (Or.inr rfl) pairs
      (fun pair => renderPieces options (Entry.memberRow (level + 1) pair)) (lineGap options level)
      rest (fun pair hpair => ?_) ?_ (fun pair _ => opens_memberRow pair) ?_ found
    · rcases h pair hpair with hspelled | hbalk
      · left
        intro behind
        obtain ⟨m, htext, hfits⟩ := hspelled.member pair.1 behind
        exact ⟨m, _, htext, hfits⟩
      · exact Or.inr (balks_memberRow hbalk pair.1)
    · obtain ⟨pair, hpair, hbalk⟩ := hbalks
      exact ⟨pair, hpair, balks_memberRow hbalk pair.1⟩
    · rw [Cursor.rest_step, hc, layout_object hpairs,
        renderPieces_bracketed options (by simpa using hpairs)]
      simp [Brackets.curly, Function.comp_def]
  intro hread
  rw [itemReader?, ExtendedJson.readObject] at hread
  split at hread
  · simp at hread
  · next found hfound => exact hmembers _ hfound

/-- A text that begins an entry balks when no entry is read at it. -/
theorem balks_of_readEntryAt_ne_ok {text : List Char} {first : Char} {tail : List Char}
    (htext : text = first :: tail) (hblank : Text.isLayout first = false)
    (h : ∀ (c : Cursor) (rest : List Char), c.rest = text ++ rest →
      ∀ read, readEntryAt limits (itemReader? limits levels) c ≠ .ok read) :
    Balks (readValue limits levels) text := by
  intro gap c rest t _ hc ht
  have hskip : c.skipLayout.rest = text ++ (gap.text ++ rest) := by
    rw [Cursor.rest_skipLayout, hc, htext]
    exact afterBlanks_cons hblank _
  rw [readValue_eq] at ht
  unfold readValueWith at ht
  split at ht
  · simp at ht
  · next hread => exact absurd hread (h _ _ hskip _)

theorem balks_array {items : List Entry}
    (h : ∀ item ∈ items, SpelledOrBalks limits options levels (level + 1) item)
    (hbalks : ∃ item ∈ items,
      Balks (readValue limits levels) (renderPieces options (item.layout (level + 1)))) :
    Balks (readValue limits (levels + 1)) (renderPieces options ((array items).layout level)) := by
  obtain ⟨tail, htext⟩ : ∃ tail,
      renderPieces options ((array items).layout level) = '[' :: tail := by
    cases items <;> exact ⟨_, rfl⟩
  refine balks_of_readEntryAt_ne_ok htext rfl fun c rest hc read hread => ?_
  have hopen : c.rest = '[' :: (tail ++ rest) := by rw [hc, htext, List.cons_append]
  rw [readEntryAt, hopen] at hread
  simp only at hread
  split at hread
  · simp at hread
  · next hitems => exact readArray_ne_ok h hbalks hc _ hitems

theorem balks_object {pairs : List (String × Entry)}
    (h : ∀ pair ∈ pairs, SpelledOrBalks limits options levels (level + 1) pair.2)
    (hbalks : ∃ pair ∈ pairs,
      Balks (readValue limits levels) (renderPieces options (pair.2.layout (level + 1)))) :
    Balks (readValue limits (levels + 1))
      (renderPieces options ((object ⟨pairs⟩).layout level)) := by
  obtain ⟨tail, htext⟩ : ∃ tail,
      renderPieces options ((object ⟨pairs⟩).layout level) = '\x7b' :: tail := by
    cases pairs <;> exact ⟨_, rfl⟩
  refine balks_of_readEntryAt_ne_ok htext rfl fun c rest hc read hread => ?_
  have hopen : c.rest = '\x7b' :: (tail ++ rest) := by rw [hc, htext, List.cons_append]
  rw [readEntryAt, hopen] at hread
  simp only [readObjectEntry] at hread
  split at hread
  · simp at hread
  · next hmembers => exact readObject_ne_ok h hbalks hc _ hmembers

/-- What is written for an entry stops every reader when a number in it cannot be spelled. -/
theorem balks (limits : ParserOptions) (options : WriterOptions) (e : Entry) :
    ∀ levels level, e.Readable levels → ¬ e.NumbersSatisfy Decimal.Spellable →
      Balks (readValue limits levels) (renderPieces options (e.layout level)) := by
  induction e using byShape with
  | number d =>
      intro levels level _ hnumber
      rw [numbersSatisfy_number_iff] at hnumber
      exact balks_number hnumber
  | array items ih =>
      intro levels level h hnumbers
      obtain ⟨levels, rfl⟩ := h.exists_levels (by simp [readingDepth_array])
      rw [readable_array_iff] at h
      rw [numbersSatisfy_array_iff] at hnumbers
      push Not at hnumbers
      obtain ⟨bad, hmem, hbad⟩ := hnumbers
      have hitems : ∀ item ∈ items, SpelledOrBalks limits options levels (level + 1) item := by
        intro item hitem
        by_cases hnumber : item.NumbersSatisfy Decimal.Spellable
        · exact Or.inl (spelled limits options item levels (level + 1) (h item hitem) hnumber)
        · exact Or.inr (ih item hitem levels (level + 1) (h item hitem) hnumber)
      exact balks_array hitems ⟨bad, hmem, ih bad hmem levels (level + 1) (h bad hmem) hbad⟩
  | object pairs ih =>
      intro levels level h hnumbers
      obtain ⟨levels, rfl⟩ := h.exists_levels (by simp [readingDepth_object])
      obtain ⟨-, -, h⟩ := readable_object_iff.mp h
      rw [numbersSatisfy_object_iff] at hnumbers
      push Not at hnumbers
      obtain ⟨bad, hmem, hbad⟩ := hnumbers
      have hpairs : ∀ pair ∈ pairs, SpelledOrBalks limits options levels (level + 1) pair.2 := by
        intro pair hpair
        by_cases hnumber : pair.2.NumbersSatisfy Decimal.Spellable
        · exact Or.inl (spelled limits options pair.2 levels (level + 1) (h pair hpair) hnumber)
        · exact Or.inr (ih pair hpair levels (level + 1) (h pair hpair) hnumber)
      exact balks_object hpairs ⟨bad, hmem, ih bad hmem levels (level + 1) (h bad hmem) hbad⟩
  | null | boolean | string | binary | date | time | timestamp =>
      intro levels level _ hnumber
      exact absurd ((everywhere_leaf_iff (by simp) (by simp)).mpr trivial) hnumber

/-- An entry with a number that cannot be spelled is not read back from what is written for it. -/
theorem parseEntry_layout_ne_ok {e : Entry} (h : e.Readable limits.maxDepth)
    (hnumbers : ¬ e.NumbersSatisfy Decimal.Spellable) (read : Entry) :
    parseEntry (String.ofList (renderPieces options (e.layout 0))) limits ≠ .ok read := by
  intro hread
  rw [parseEntry, Parser.readEntry_eq_ok_iff] at hread
  obtain ⟨d, htext, hfits⟩ := hread
  let p := Parser.ofText (String.ofList (renderPieces options (e.layout 0))) limits
  have hrest : p.cursor.rest = renderPieces options (e.layout 0) := String.toList_ofList
  obtain ⟨t, ht, -, hend⟩ := (reads_value _ _).complete (c := p.cursor) hfits stops_nil (by
    rw [List.append_nil, ← htext]
    rfl)
  refine balks limits options e limits.maxDepth 0 h hnumbers .empty _ [] t stops_nil ?_ ht ?_
  · rw [hrest]
    simp [Gap.empty]
  · rw [hend]
    exact stops_nil

end Entry

end ExtendedJson
