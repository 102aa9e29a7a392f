import ExtendedJson.Proofs.Admission
import ExtendedJson.Proofs.Grammar.Reading
import ExtendedJson.Proofs.PayloadTexts

/-!
# What is written is spelled

Every layout of an entry is the text of a spelling that means the entry, so that a reader of the
grammar reads it back. The spelling is found by recursion on the entry: a letter for each character,
a numeral for each number, and for each row between brackets a spelling with the line break in front.
The line break before a closing bracket belongs to the row before it, and is why rows are spelled
with any blanks behind.

Two things are not as they were. A number without digits behind the point comes back without the
zeros that its scale stood for, as `Decimal.settled` says. And a zero of negative scale has no
spelling at all, because its text begins with two zeros.
-/

namespace ExtendedJson

open Grammar

/-! ## Strings -/

namespace Grammar

theorem char_lowercase : ∀ v : Fin 16, (HexDigit.mk v false).char = Nat.digitChar v := by
  decide

theorem exists_letter (c : Char) : ∃ l : Letter, l.text = JsonString.escape c ∧ l.char = c := by
  have hshort {named mark : Char} (h : (mark, named) ∈ shortEscapes) :
      ∃ l : Letter, l.text = ['\\', mark] ∧ l.char = named :=
    ⟨.short mark named h, rfl, rfl⟩
  unfold JsonString.escape
  split
  · next h => rw [h]; exact hshort (by decide)
  · next hquote =>
    split
    · next h => rw [h]; exact hshort (by decide)
    · next hback =>
      split
      · next h => rw [h]; exact hshort (by decide)
      split
      · next h => rw [h]; exact hshort (by decide)
      split
      · next h => rw [h]; exact hshort (by decide)
      split
      · next h => rw [h]; exact hshort (by decide)
      split
      · next h => rw [h]; exact hshort (by decide)
      split
      · next hcontrol =>
          have hlt : c.toNat < 32 := hcontrol
          let digits : FourHex := ⟨⟨0, false⟩, ⟨0, false⟩, ⟨⟨c.toNat / 16, by omega⟩, false⟩,
            ⟨⟨c.toNat % 16, by omega⟩, false⟩⟩
          have hvalue : digits.value = c.toNat := by
            simp only [digits, FourHex.value]
            have : ((0 : Fin 16) : Nat) = 0 := rfl
            omega
          refine ⟨.code digits (by omega), ?_, ?_⟩
          · simp only [Letter.text, FourHex.text, digits, char_lowercase]
            rfl
          · rw [Letter.char, hvalue]
            exact Char.ofNat_toNat c
      · next hcontrol => exact ⟨.plain c ⟨Char.not_lt.mp hcontrol, hquote, hback⟩, rfl, rfl⟩

theorem exists_quoted (content : List Char) :
    ∃ q : Quoted, q.text = JsonString.quote content ∧ q.content = content := by
  suffices ∃ letters : List Letter, letters.flatMap Letter.text = content.flatMap JsonString.escape ∧
      letters.map Letter.char = content by
    obtain ⟨letters, htext, hcontent⟩ := this
    refine ⟨⟨letters⟩, ?_, hcontent⟩
    rw [Quoted.text, Quoted.body, htext, JsonString.quote]
  induction content with
  | nil => exact ⟨[], rfl, rfl⟩
  | cons c content ih =>
      obtain ⟨letters, htext, hcontent⟩ := ih
      obtain ⟨l, hl, hc⟩ := exists_letter c
      refine ⟨l :: letters, ?_, ?_⟩
      · rw [List.flatMap_cons, List.flatMap_cons, hl, htext]
      · rw [List.map_cons, hc, hcontent]

end Grammar

/-! ## Numbers -/

namespace Decimal

/-- The number as its plain text spells it: zeros that stand for a negative scale become digits. -/
def settled (d : Decimal) : Decimal :=
  if d.scale < 0 then ⟨d.unscaled * pow10 (-d.scale).toNat, 0⟩ else d

/-- Whether the plain text is a number of the grammar. -/
def Spellable (d : Decimal) : Prop := 0 ≤ d.scale ∨ d.unscaled ≠ 0

/-- Only zeros of negative scale cannot be spelled. -/
theorem spellable_iff {d : Decimal} : d.Spellable ↔ ¬(d.scale < 0 ∧ d.unscaled = 0) := by
  rw [Spellable]
  omega

theorem head?_toDigits {n : Nat} (h : n ≠ 0) : (Nat.toDigits 10 n).head? ≠ some '0' := by
  induction n using Nat.strongRecOn with
  | ind n ih =>
      rw [Nat.toDigits_eq_if (by decide)]
      split
      · next hlt =>
          have hdigit : ∀ v : Fin 10, v.val ≠ 0 → Nat.digitChar v ≠ '0' := by decide
          rw [List.head?_cons, ne_eq, Option.some.injEq]
          exact hdigit ⟨n, hlt⟩ h
      · have hhead := ih (n / 10) (by omega) (by omega)
        cases hdigits : Nat.toDigits 10 (n / 10) with
        | nil => exact absurd hdigits Nat.toDigits_ne_nil
        | cons c digits =>
            rw [hdigits] at hhead
            exact hhead

theorem digitText_head? {d : Decimal} (h : d.digitText.head? = some '0') :
    d.unscaled = 0 ∧ d.digitText = ['0'] := by
  have hzero : d.unscaled.natAbs = 0 := by
    by_cases hne : d.unscaled.natAbs = 0
    · exact hne
    · exact absurd h (head?_toDigits hne)
  refine ⟨Int.natAbs_eq_zero.mp hzero, ?_⟩
  rw [digitText, hzero]
  rfl

theorem isDigit_digitText (d : Decimal) : ∀ c ∈ d.digitText, c.isDigit :=
  fun _ => Nat.isDigit_of_mem_toDigits (by decide) (by decide)

theorem signed_natAbs_mul (n : Int) (k : Nat) :
    (if decide (n < 0) = true then -((n.natAbs * k : Nat) : Int) else ((n.natAbs * k : Nat) : Int)) =
      n * k := by
  by_cases h : n < 0
  · rw [if_pos (decide_eq_true h), Int.natCast_mul, Int.ofNat_natAbs_of_nonpos (by omega),
      Int.neg_mul, Int.neg_neg]
  · rw [if_neg (by simpa using h), Int.natCast_mul, Int.natAbs_of_nonneg (by omega)]

theorem settled_of_nonpos {d : Decimal} (h : d.scale ≤ 0) :
    d.settled = ⟨d.unscaled * pow10 (-d.scale).toNat, 0⟩ := by
  unfold settled
  split
  · rfl
  · have hscale : d.scale = 0 := by omega
    obtain ⟨unscaled, scale⟩ := d
    simp only at hscale
    subst hscale
    rw [show pow10 (-(0 : Int)).toNat = 1 from rfl]
    simp

theorem settled_of_nonneg {d : Decimal} (h : 0 ≤ d.scale) : d.settled = d := by
  rw [settled, if_neg (by omega)]

theorem exists_numeral_of_nonpos {d : Decimal} (h : d.scale ≤ 0) (hspell : d.Spellable) :
    ∃ n : Numeral, n.text = d.plain ∧ n.magnitude = 0 ∧ n.value = d.settled := by
  let zeros := List.replicate (-d.scale).toNat '0'
  have hdigits : ∀ c ∈ d.digitText ++ zeros, c.isDigit := by
    intro c hc
    rcases List.mem_append.mp hc with hc | hc
    · exact d.isDigit_digitText c hc
    · rw [List.eq_of_mem_replicate hc]
      rfl
  have hne : d.digitText ++ zeros ≠ [] := by simp [digitText, Nat.toDigits_ne_nil]
  have hzero : (d.digitText ++ zeros).head? = some '0' → d.digitText ++ zeros = ['0'] := by
    intro hhead
    have hhead' : d.digitText.head? = some '0' := by
      cases hdigit : d.digitText with
      | nil => exact absurd hdigit Nat.toDigits_ne_nil
      | cons c digits =>
          rw [hdigit] at hhead
          exact hhead
    obtain ⟨hunscaled, htext⟩ := digitText_head? hhead'
    have hscale : d.scale = 0 := by
      rcases hspell with hscale | hscale
      · omega
      · exact absurd hunscaled hscale
    rw [htext, show zeros = [] by simp [zeros, hscale]]
    rfl
  refine ⟨⟨decide (d.unscaled < 0), ⟨_, hdigits, hne⟩, none, none, hzero⟩, ?_, rfl, ?_⟩
  · rw [plain, if_pos h]
    simp [Numeral.text, Numeral.signText, Numeral.fractionText, Numeral.exponentText, signText,
      zeros]
  · have hvalue : Nat.ofDigitChars 10 (d.digitText ++ zeros) 0 =
        d.unscaled.natAbs * pow10 (-d.scale).toNat := by
      rw [Nat.ofDigitChars_append, Nat.ofDigitChars_replicate_zero, digitText,
        Nat.ofDigitChars_ten_toDigits, Nat.mul_comm]
      rfl
    simp only [Numeral.value, Numeral.fractionDigits, Numeral.exponentValue, List.append_nil,
      List.length_nil, hvalue, signed_natAbs_mul, settled_of_nonpos h]
    rfl

/-- Digits with a point among them or in front of them. -/
theorem exists_pointed {digits : List Char} (hdigits : ∀ c ∈ digits, c.isDigit) (hne : digits ≠ [])
    (hzero : digits.head? = some '0' → digits = ['0']) (places : Nat) (hplaces : 0 < places) :
    ∃ whole fraction : Digits, pointed digits places = whole.text ++ '.' :: fraction.text ∧
      fraction.text.length = places ∧
      (whole.text.head? = some '0' → whole.text = ['0']) ∧
      Nat.ofDigitChars 10 (whole.text ++ fraction.text) 0 = Nat.ofDigitChars 10 digits 0 := by
  unfold pointed
  split
  · next hshort =>
      refine ⟨⟨digits.take (digits.length - places), fun c hc => hdigits c (List.mem_of_mem_take hc),
          ?_⟩, ⟨digits.drop (digits.length - places),
          fun c hc => hdigits c (List.mem_of_mem_drop hc), ?_⟩, rfl, ?_, ?_, ?_⟩
      · rw [ne_eq, List.take_eq_nil_iff]
        rintro (hlength | hnil)
        · omega
        · exact hne hnil
      · rw [ne_eq, List.drop_eq_nil_iff]
        omega
      · rw [List.length_drop]
        omega
      · intro hhead
        rw [List.head?_take, if_neg (by omega)] at hhead
        rw [hzero hhead] at hshort
        exact absurd hshort (by simp; omega)
      · rw [List.take_append_drop]
  · next hlong =>
      refine ⟨⟨['0'], by simp, by simp⟩,
        ⟨List.replicate (places - digits.length) '0' ++ digits, fun c hc => ?_, by simp [hne]⟩, rfl,
        ?_, fun _ => rfl, ?_⟩
      · rcases List.mem_append.mp hc with hc | hc
        · rw [List.eq_of_mem_replicate hc]
          rfl
        · exact hdigits c hc
      · rw [List.length_append, List.length_replicate]
        omega
      · have hinit : Nat.ofDigitChars 10 ['0'] 0 = 0 := rfl
        rw [Nat.ofDigitChars_append, Nat.ofDigitChars_append, hinit,
          Nat.ofDigitChars_replicate_zero, Nat.mul_zero]

theorem exists_numeral_of_pos {d : Decimal} (h : 0 < d.scale) :
    ∃ n : Numeral, n.text = d.plain ∧ n.magnitude = 0 ∧ n.value = d.settled := by
  obtain ⟨whole, fraction, htext, hlength, hzero, hvalue⟩ :=
    exists_pointed d.isDigit_digitText Nat.toDigits_ne_nil (fun h => (digitText_head? h).2)
      d.scale.toNat (by omega)
  refine ⟨⟨decide (d.unscaled < 0), whole, some fraction, none, hzero⟩, ?_, rfl, ?_⟩
  · rw [plain, if_neg (by omega), htext]
    simp [Numeral.text, Numeral.signText, Numeral.fractionText, Numeral.exponentText, signText]
  · have hunscaled := signed_natAbs_mul d.unscaled 1
    rw [Nat.mul_one, Int.natCast_one, Int.mul_one] at hunscaled
    rw [digitText, Nat.ofDigitChars_ten_toDigits] at hvalue
    simp only [Numeral.value, Numeral.fractionDigits, Numeral.exponentValue, hvalue, hunscaled,
      hlength, settled_of_nonneg (Int.le_of_lt h)]
    rw [Int.sub_zero, Int.toNat_of_nonneg (Int.le_of_lt h)]

/-- Plain text is a numeral, with the number that it spells out. -/
theorem exists_numeral {d : Decimal} (hspell : d.Spellable) :
    ∃ n : Numeral, n.text = d.plain ∧ n.magnitude = 0 ∧ n.value = d.settled := by
  by_cases h : d.scale ≤ 0
  · exact exists_numeral_of_nonpos h hspell
  · exact exists_numeral_of_pos (by omega)

end Decimal

/-! ## Rows -/

namespace Grammar

def Gap.empty : Gap := ⟨[], by simp⟩

/-- What a line break is rendered as. -/
def lineGap (options : WriterOptions) (level : Nat) : Gap where
  text := Piece.render options (.lineBreak level)
  blank := by
    intro c hc
    unfold Piece.render at hc
    cases hstyle : options.style with
    | compact => simp [hstyle] at hc
    | readable =>
        simp only [hstyle, List.mem_cons] at hc
        rcases hc with rfl | hc
        · exact Or.inr (Or.inr (Or.inl rfl))
        · exact Or.inl (List.eq_of_mem_replicate hc)

theorem renderPieces_append (options : WriterOptions) (first second : List Piece) :
    renderPieces options (first ++ second) =
      renderPieces options first ++ renderPieces options second :=
  List.flatMap_append

theorem renderPieces_separated (options : WriterOptions) {rows : List (List Piece)} (h : rows ≠ [])
    (separator : List Piece) :
    renderPieces options (WriteRules.separated separator rows) =
      renderPieces options separator ++ listed (rows.map (renderPieces options)) := by
  induction rows generalizing separator with
  | nil => exact absurd rfl h
  | cons row rows ih =>
      rw [WriteRules.separated, renderPieces_append, renderPieces_append]
      by_cases hrows : rows = []
      · subst hrows
        rw [WriteRules.separated, show renderPieces options [] = [] from rfl, List.append_nil]
        rfl
      · rw [ih hrows, List.map_cons, listed_cons _ (by simpa using hrows)]
        rfl

theorem renderPieces_bracketed (options : WriterOptions) {rows : List (List Piece)} (h : rows ≠ [])
    (level : Nat) (opening closing : Char) (marker : Option String) :
    renderPieces options
        (WriteRules.bracketed level opening closing marker (WriteRules.separated [] rows)) =
      opening :: (listed (rows.map (renderPieces options)) ++ (lineGap options level).text ++
        [closing]) := by
  have hrows := renderPieces_separated options h []
  rw [show renderPieces options [] = [] from rfl, List.nil_append] at hrows
  rw [WriteRules.bracketed, ← List.singleton_append, renderPieces_append, renderPieces_append, hrows,
    List.append_assoc]
  rfl

/-- When each row has a spelling with any blanks behind, the rows have spellings with given blanks
behind the last. -/
theorem exists_listed {α Y : Type} {parts : List α} {row : α → List Char} {text : Y → List Char}
    {means : Y → α → Prop}
    (h : ∀ part ∈ parts, ∀ behind : Gap, ∃ y, text y = row part ++ behind.text ∧ means y part)
    (hne : parts ≠ []) (behind : Gap) :
    ∃ ys, listed (ys.map text) = listed (parts.map row) ++ behind.text ∧
      List.Forall₂ means ys parts := by
  induction parts with
  | nil => exact absurd rfl hne
  | cons part parts ih =>
      rw [List.forall_mem_cons] at h
      by_cases hparts : parts = []
      · subst hparts
        obtain ⟨y, htext, hy⟩ := h.1 behind
        exact ⟨[y], htext, .cons hy .nil⟩
      · obtain ⟨y, htext, hy⟩ := h.1 .empty
        obtain ⟨ys, hys, hmeans⟩ := ih h.2 hparts
        have hys' : ys ≠ [] := by
          rintro rfl
          cases hmeans
          exact hparts rfl
        refine ⟨y :: ys, ?_, .cons hy hmeans⟩
        rw [List.map_cons, List.map_cons, listed_cons _ (by simpa using hys'),
          listed_cons _ (by simpa using hparts), hys, htext, List.append_assoc, List.append_assoc]
        rfl

end Grammar

/-! ## Entries -/

namespace Entry

/-- An entry as its text spells it. -/
def settled (e : Entry) : Entry := e.mapNumbers Decimal.settled

theorem wrapper?_mapPairs (f : Decimal → Decimal) (pairs : List (String × Entry)) :
    Object.wrapper? ⟨mapPairs f pairs⟩ = Object.wrapper? ⟨pairs⟩ := by
  match pairs with
  | [] => rfl
  | [(key, value)] => cases value <;> rfl
  | _ :: _ :: _ => simp [Object.wrapper?, mapPairs_eq_map]

theorem keys_mapPairs (f : Decimal → Decimal) (pairs : List (String × Entry)) :
    (mapPairs f pairs).map Prod.fst = pairs.map Prod.fst := by
  rw [mapPairs_eq_map, List.map_map]
  rfl

variable {limits : ParserOptions} {options : WriterOptions} {level levels : Nat}

/-- What is written for an entry that begins at a level is spelled, within the limits of a reader
with some levels left. -/
def Spelled (limits : ParserOptions) (options : WriterOptions) (levels level : Nat) (e : Entry) :
    Prop :=
  ∃ s : Spelling, s.text = renderPieces options (e.layout level) ∧ Fits limits levels s e.settled

/-- Pairs with distinct keys that do not look like a wrapper stand for the object that they make. -/
theorem standsFor?_merged {pairs : List (String × Entry)} (hkeys : (pairs.map Prod.fst).Nodup)
    (hplain : Object.wrapper? ⟨pairs⟩ = none) :
    Members.merged pairs = pairs ∧ standsFor? (Members.merged pairs) = some (.object ⟨pairs⟩) := by
  have hmerged : Members.merged pairs = pairs := by
    rw [← Members.pairs_ofPairs, Members.ofPairs_of_nodup hkeys]
  refine ⟨hmerged, ?_⟩
  rw [hmerged, ← ofObject_eq_ok_iff, ofObject, hplain]

theorem spelled_number {d : Decimal} (h : d.Spellable) :
    Spelled limits options levels level (.number d) := by
  obtain ⟨n, htext, hmagnitude, hvalue⟩ := Decimal.exists_numeral h
  refine ⟨.number n, ?_, fits_number_iff.mpr ⟨by omega, ?_⟩⟩
  · rw [Spelling.text, htext, layout]
    exact (List.append_nil _).symm
  · rw [hvalue]
    rfl

theorem spelled_string (value : String) : Spelled limits options levels level (.string value) := by
  obtain ⟨q, htext, hcontent⟩ := exists_quoted value.toList
  refine ⟨.string q, ?_, ?_⟩
  · rw [Spelling.text, htext, layout]
    exact (List.append_nil _).symm
  · have hfits := fits_string limits levels q
    rw [hcontent, String.ofList_toList] at hfits
    exact hfits

theorem Spelled.placed {item : Entry} (h : Spelled limits options levels level item) (behind : Gap) :
    ∃ p : Placed Spelling,
      p.textBy Spelling.text = renderPieces options (itemRow level item) ++ behind.text ∧
        Fits limits levels p.item item.settled := by
  obtain ⟨s, htext, hfits⟩ := h
  refine ⟨⟨lineGap options level, s, behind⟩, ?_, hfits⟩
  rw [Placed.textBy, htext, ← List.append_assoc]
  rfl

theorem renderPieces_memberRow (key : String) (value : Entry) :
    renderPieces options (memberRow level (key, value)) =
      (lineGap options level).text ++
        (JsonString.quote key.toList ++ ':' :: renderPieces options (value.layout level)) := by
  simp [memberRow, renderPieces, Piece.render, lineGap]

theorem Spelled.member {value : Entry} (h : Spelled limits options levels level value) (key : String)
    (behind : Gap) : ∃ m : Placed Quoted × Placed Spelling,
      Spelling.memberText m = renderPieces options (memberRow level (key, value)) ++ behind.text ∧
        FitsMember limits levels m (key, value.settled) := by
  obtain ⟨s, htext, hdepth, hexponents, hmeaning⟩ := h
  obtain ⟨q, hq, hcontent⟩ := exists_quoted key.toList
  refine ⟨(⟨lineGap options level, q, .empty⟩, ⟨.empty, s, behind⟩), ?_, hdepth, hexponents, ?_,
    hmeaning⟩
  · rw [renderPieces_memberRow]
    simp [Spelling.memberText, Placed.textBy, hq, htext, Gap.empty]
  · rw [hcontent, String.ofList_toList]

theorem exists_array {items : List Entry}
    (h : ∀ item ∈ items, Spelled limits options levels (level + 1) item) :
    ∃ gap placed,
      (Spelling.array gap placed).text = renderPieces options ((array items).layout level) ∧
      Fits limits (levels + 1) (.array gap placed) (.array (mapItems Decimal.settled items)) := by
  by_cases hitems : items = []
  · subst hitems
    exact ⟨.empty, [], rfl, fits_array_iff.mpr .nil⟩
  · have hrows : ∀ item ∈ items, ∀ behind : Gap, ∃ p : Placed Spelling,
        p.textBy Spelling.text = renderPieces options (itemRow (level + 1) item) ++ behind.text ∧
          Fits limits levels p.item item.settled :=
      fun item hitem => (h item hitem).placed
    obtain ⟨placed, htext, hplaced⟩ := exists_listed hrows hitems (lineGap options level)
    refine ⟨.empty, placed, ?_, fits_array_iff.mpr ?_⟩
    · rw [layout_array hitems, renderPieces_bracketed options (by simpa using hitems),
        Spelling.text, Spelling.itemTexts_eq_map, htext, List.map_map]
      rfl
    · rw [mapItems_eq_map]
      exact List.forall₂_map_right_iff.mpr hplaced

theorem exists_object {pairs : List (String × Entry)}
    (h : ∀ pair ∈ pairs, Spelled limits options levels (level + 1) pair.2) :
    ∃ gap members,
      (Spelling.object gap members).text = renderPieces options ((object ⟨pairs⟩).layout level) ∧
      FitsObject limits (levels + 1) gap members (mapPairs Decimal.settled pairs) := by
  by_cases hpairs : pairs = []
  · subst hpairs
    exact ⟨.empty, [], rfl, forall₂_fitsMember_iff.mp .nil⟩
  · have hrows : ∀ pair ∈ pairs, ∀ behind : Gap, ∃ m : Placed Quoted × Placed Spelling,
        Spelling.memberText m =
            renderPieces options (memberRow (level + 1) pair) ++ behind.text ∧
          FitsMember limits levels m (pair.1, pair.2.settled) :=
      fun pair hpair => (h pair hpair).member pair.1
    obtain ⟨members, htext, hmembers⟩ := exists_listed hrows hpairs (lineGap options level)
    refine ⟨.empty, members, ?_, forall₂_fitsMember_iff.mp ?_⟩
    · rw [layout_object hpairs, renderPieces_bracketed options (by simpa using hpairs),
        Spelling.text, Spelling.memberTexts_eq_map, htext, List.map_map]
      rfl
    · rw [mapPairs_eq_map]
      exact List.forall₂_map_right_iff.mpr hmembers

/-- What stands under a marker. -/
def underMarker : Option (List Char) → Entry
  | none => .null
  | some text => .string (String.ofList text)

theorem exists_underMarker (limits : ParserOptions) (levels : Nat) (text : Option (List Char)) :
    ∃ s : Spelling, s.text = (match text with
        | some text => JsonString.quote text
        | none => "null".toList) ∧ Fits limits levels s (underMarker text) := by
  cases text with
  | none => exact ⟨.null, rfl, fits_null limits levels⟩
  | some text =>
      obtain ⟨q, htext, hcontent⟩ := exists_quoted text
      refine ⟨.string q, htext, ?_⟩
      rw [underMarker, ← hcontent]
      exact fits_string limits levels q

theorem marker?_of_extendedText {e : Entry} {text : Option (List Char)}
    (h : e.extendedText? = some text) :
    ∃ marker, e.kind.marker? = some marker ∧ Kind.ofMarker? marker = some e.kind := by
  cases e with
  | binary => exact ⟨_, rfl, rfl⟩
  | date => exact ⟨_, rfl, rfl⟩
  | time => exact ⟨_, rfl, rfl⟩
  | timestamp => exact ⟨_, rfl, rfl⟩
  | null | boolean | number | string | array | object => simp [extendedText?] at h

/-- What stands under the marker of an extended entry is read as that entry. -/
theorem ofObject_underMarker {e : Entry} {text : Option (List Char)} {marker : String}
    (h : e.extendedText? = some text) (hmarker : Kind.ofMarker? marker = some e.kind) :
    ofObject ⟨[(marker, underMarker text)]⟩ = .ok e := by
  have hwrapper : Object.wrapper? ⟨[(marker, underMarker text)]⟩ =
      some (e.kind, text.map String.ofList) := by
    cases text <;> simp [Object.wrapper?, underMarker, hmarker]
  rw [ofObject, hwrapper]
  exact decodeExtended_extendedText h

theorem standsFor?_wrapper {e : Entry} {text : Option (List Char)} {marker : String}
    (h : e.extendedText? = some text) (hmarker : Kind.ofMarker? marker = some e.kind) :
    standsFor? (Members.merged [(marker, underMarker text)]) = some e := by
  have hmerged : Members.merged [(marker, underMarker text)] = [(marker, underMarker text)] := by
    rw [← Members.pairs_ofPairs, Members.ofPairs_of_nodup (by simp)]
  rw [hmerged, ← ofObject_eq_ok_iff]
  exact ofObject_underMarker h hmarker

theorem spelled_wrapper {e : Entry} {text : Option (List Char)} (h : e.extendedText? = some text)
    (hlayout : e.layout level = wrapperPieces e.kind text) (hsettled : e.settled = e) :
    Spelled limits options (levels + 1) level e := by
  obtain ⟨marker, hmarker, hkind⟩ := marker?_of_extendedText h
  obtain ⟨q, hq, hcontent⟩ := exists_quoted marker.toList
  obtain ⟨s, hs, hdepth, hexponents, hmeaning⟩ := exists_underMarker limits levels text
  have hmember : FitsMember limits levels (⟨.empty, q, .empty⟩, ⟨.empty, s, .empty⟩)
      (marker, underMarker text) :=
    ⟨hdepth, hexponents, by rw [hcontent, String.ofList_toList], hmeaning⟩
  refine ⟨.object .empty [(⟨.empty, q, .empty⟩, ⟨.empty, s, .empty⟩)], ?_,
    fits_object_iff.mpr ⟨_, forall₂_fitsMember_iff.mp (.cons hmember .nil), ?_⟩⟩
  · rw [Spelling.text, Spelling.memberTexts_eq_map, hlayout, wrapperPieces, hmarker]
    cases text <;>
      simp [listed, Spelling.memberText, Placed.textBy, Gap.empty, hq, hs, renderPieces, Piece.render,
        wrapperText]
  · rw [hsettled]
    exact standsFor?_wrapper h hkind

/-- An entry that a reader could return, with numbers that can be spelled, is spelled by what is
written for it, and spelled as what it settles to. -/
theorem spelled (limits : ParserOptions) (options : WriterOptions) (e : Entry) :
    ∀ levels level, e.Readable levels → e.NumbersSatisfy Decimal.Spellable →
      Spelled limits options levels level e := by
  induction e using byShape with
  | null => exact fun levels _ _ _ => ⟨.null, rfl, fits_null limits levels⟩
  | boolean value =>
      intro levels level _ _
      refine ⟨.boolean value, ?_, fits_boolean limits levels value⟩
      rw [Spelling.text, layout]
      exact (List.append_nil _).symm
  | number value =>
      intro levels level _ hnumber
      exact spelled_number hnumber.self
  | string value => exact fun levels level _ _ => spelled_string value
  | array items ih =>
      intro levels level h hnumbers
      obtain ⟨levels, rfl⟩ := h.exists_levels (by simp [readingDepth_array])
      rw [readable_array_iff] at h
      rw [numbersSatisfy_array_iff] at hnumbers
      obtain ⟨gap, placed, htext, hfits⟩ := exists_array fun item hitem =>
        ih item hitem levels (level + 1) (h item hitem) (hnumbers item hitem)
      exact ⟨_, htext, hfits⟩
  | object pairs ih =>
      intro levels level h hnumbers
      obtain ⟨levels, rfl⟩ := h.exists_levels (by simp [readingDepth_object])
      obtain ⟨hkeys, hplain, h⟩ := readable_object_iff.mp h
      rw [numbersSatisfy_object_iff] at hnumbers
      obtain ⟨gap, members, htext, hfits⟩ := exists_object fun pair hpair =>
        ih pair hpair levels (level + 1) (h pair hpair) (hnumbers pair hpair)
      refine ⟨_, htext, fits_object_iff.mpr ⟨_, hfits, ?_⟩⟩
      refine (standsFor?_merged ?_ ?_).2
      · rw [keys_mapPairs]
        exact hkeys
      · rw [wrapper?_mapPairs]
        exact hplain
  | binary | date | time | timestamp =>
      intro levels level h _
      obtain ⟨levels, rfl⟩ := h.exists_levels (by simp [readingDepth, depthWith])
      exact spelled_wrapper rfl rfl rfl

end Entry

end ExtendedJson
