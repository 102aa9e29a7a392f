import ExtendedJson.Proofs.CompactText

/-!
# Texts outside their string literals

What a text shows of its structure it shows outside of string literals: there stand the brackets that
count, and there are the blanks that may be dropped. A text is scanned from the left with a state of
three values, and where a part ends outside of literals the scan of what follows begins anew. The
parts that the writer never breaks are of this kind: they end outside, contain no line break, have no
blanks but in literals, and close what they open.
-/

namespace ExtendedJson

/-! ## Places -/

/-- Where a character of a text stands. -/
inductive Place where
  | outside
  /-- In a string literal. Its closing quote still belongs to it. -/
  | literal
  /-- Behind a backslash in a string literal. -/
  | escaped
deriving DecidableEq

namespace Place

/-- Where the next character stands. -/
def next (place : Place) (c : Char) : Place :=
  match place with
  | outside => if c = '"' then literal else outside
  | literal => if c = '"' then outside else if c = '\\' then escaped else literal
  | escaped => literal

/-- Where what follows a text stands. -/
def behind (place : Place) (text : List Char) : Place := text.foldl next place

/-- The characters of a text with their places. -/
def scan (place : Place) : List Char → List (Place × Char)
  | [] => []
  | c :: text => (place, c) :: scan (place.next c) text

theorem behind_append (place : Place) (first second : List Char) :
    place.behind (first ++ second) = (place.behind first).behind second :=
  List.foldl_append

theorem scan_append (place : Place) (first second : List Char) :
    place.scan (first ++ second) = place.scan first ++ (place.behind first).scan second := by
  induction first generalizing place with
  | nil => rfl
  | cons c first ih => rw [List.cons_append, scan, scan, ih]; rfl

theorem map_snd_scan (place : Place) (text : List Char) :
    (place.scan text).map Prod.snd = text := by
  induction text generalizing place with
  | nil => rfl
  | cons c text ih => rw [scan, List.map_cons, ih]

end Place

/-- The text without the line breaks and spaces outside of string literals. -/
def stripped (text : List Char) : List Char :=
  ((Place.outside.scan text).filter fun p => p.1 ≠ .outside ∨ p.2 ≠ '\n' ∧ p.2 ≠ ' ').map Prod.snd

/-- How many of some characters stand outside of string literals. -/
def countOutside (chars : List Char) (text : List Char) : Nat :=
  (Place.outside.scan text).countP fun p => p.1 = .outside ∧ p.2 ∈ chars

def openingBrackets : List Char := ['[', '\x7b']

def closingBrackets : List Char := [']', '\x7d']

@[simp]
theorem mem_openingBrackets_iff {c : Char} : c ∈ openingBrackets ↔ c = '[' ∨ c = '\x7b' := by
  simp [openingBrackets]

@[simp]
theorem mem_closingBrackets_iff {c : Char} : c ∈ closingBrackets ↔ c = ']' ∨ c = '\x7d' := by
  simp [closingBrackets]

/-- How many brackets are opened outside of string literals. -/
def opened (text : List Char) : Nat := countOutside openingBrackets text

/-- How many brackets are closed outside of string literals. -/
def closed (text : List Char) : Nat := countOutside closingBrackets text

/-- Whether a text ends outside of string literals. -/
def Whole (text : List Char) : Prop := Place.outside.behind text = .outside

section Whole

variable {first second text : List Char}

theorem whole_nil : Whole [] := rfl

theorem Whole.append (hfirst : Whole first) (hsecond : Whole second) : Whole (first ++ second) := by
  rw [Whole, Place.behind_append, hfirst, hsecond]

theorem Whole.stripped_append (h : Whole first) (second : List Char) :
    stripped (first ++ second) = stripped first ++ stripped second := by
  rw [stripped, Place.scan_append, h, List.filter_append, List.map_append]
  rfl

theorem Whole.countOutside_append (h : Whole first) (chars second : List Char) :
    countOutside chars (first ++ second) =
      countOutside chars first + countOutside chars second := by
  rw [countOutside, Place.scan_append, h, List.countP_append]
  rfl

theorem Whole.opened_append (h : Whole first) (second : List Char) :
    opened (first ++ second) = opened first + opened second :=
  h.countOutside_append _ second

theorem Whole.closed_append (h : Whole first) (second : List Char) :
    closed (first ++ second) = closed first + closed second :=
  h.countOutside_append _ second

/-- A text without quotes stands outside as a whole. -/
theorem scan_of_no_quote (h : '"' ∉ text) :
    Place.outside.scan text = text.map (Place.outside, ·) := by
  induction text with
  | nil => rfl
  | cons c text ih =>
      rw [List.mem_cons, not_or] at h
      rw [Place.scan, List.map_cons, Place.next, if_neg fun hc => h.1 hc.symm, ih h.2]

theorem whole_of_no_quote (h : '"' ∉ text) : Whole text := by
  induction text with
  | nil => rfl
  | cons c text ih =>
      rw [List.mem_cons, not_or] at h
      rw [Whole, Place.behind, List.foldl_cons, Place.next, if_neg fun hc => h.1 hc.symm]
      exact ih h.2

end Whole

/-- What a scan finds in a text that ends outside of literals: what is left without the blanks, and
how many brackets are opened and closed. -/
structure Scanned (text left : List Char) (opens closes : Nat) : Prop where
  whole : Whole text
  left : stripped text = left
  opens : opened text = opens
  closes : closed text = closes

theorem Scanned.append {first second left left' : List Char} {opens opens' closes closes' : Nat}
    (hfirst : Scanned first left opens closes) (hsecond : Scanned second left' opens' closes') :
    Scanned (first ++ second) (left ++ left') (opens + opens') (closes + closes') where
  whole := hfirst.whole.append hsecond.whole
  left := by rw [hfirst.whole.stripped_append, hfirst.left, hsecond.left]
  opens := by rw [hfirst.whole.opened_append, hfirst.opens, hsecond.opens]
  closes := by rw [hfirst.whole.closed_append, hfirst.closes, hsecond.closes]

theorem scanned_nil : Scanned [] [] 0 0 := ⟨rfl, rfl, rfl, rfl⟩

theorem scanned_opening {bracket : Char} (h : bracket ∈ openingBrackets) :
    Scanned [bracket] [bracket] 1 0 := by
  rcases mem_openingBrackets_iff.mp h with rfl | rfl <;> exact ⟨rfl, by decide, by decide, by decide⟩

theorem scanned_closing {bracket : Char} (h : bracket ∈ closingBrackets) :
    Scanned [bracket] [bracket] 0 1 := by
  rcases mem_closingBrackets_iff.mp h with rfl | rfl <;> exact ⟨rfl, by decide, by decide, by decide⟩

/-- A line break with an indent is dropped. -/
theorem scanned_indent (count : Nat) : Scanned ('\n' :: List.replicate count ' ') [] 0 0 := by
  have hquote : '"' ∉ '\n' :: List.replicate count ' ' := by simp
  have hcount (chars : List Char) (hchars : '\n' ∉ chars ∧ ' ' ∉ chars) :
      countOutside chars ('\n' :: List.replicate count ' ') = 0 := by
    rw [countOutside, scan_of_no_quote hquote, List.countP_map, List.countP_eq_zero]
    simp [hchars]
  refine ⟨whole_of_no_quote hquote, ?_, hcount _ (by simp), hcount _ (by simp)⟩
  rw [stripped, scan_of_no_quote hquote, List.map_eq_nil_iff, List.filter_eq_nil_iff,
    List.forall_mem_map]
  simp

/-! ## Parts that are never broken -/

/-- A text that fits between two line breaks: it has no line break and no blanks to drop, and closes
what it opens. -/
structure Lexeme (text : List Char) : Prop where
  scanned : Scanned text text (opened text) (opened text)
  oneLine : '\n' ∉ text

theorem lexeme_of_scanned {text : List Char} {count : Nat} (h : Scanned text text count count)
    (honeLine : '\n' ∉ text) : Lexeme text :=
  ⟨h.opens ▸ h, honeLine⟩

theorem Lexeme.append {first second : List Char} (hfirst : Lexeme first) (hsecond : Lexeme second) :
    Lexeme (first ++ second) := by
  refine lexeme_of_scanned (hfirst.scanned.append hsecond.scanned) ?_
  rw [List.mem_append, not_or]
  exact ⟨hfirst.oneLine, hsecond.oneLine⟩

theorem not_blank_of_bracket {bracket : Char} (h : bracket ∈ openingBrackets ++ closingBrackets) :
    bracket ≠ '\n' ∧ bracket ≠ ' ' := by
  constructor <;> rintro rfl <;> simp at h

/-- What is put in brackets stays a lexeme. -/
theorem Lexeme.bracketed {opening closing : Char} {inner : List Char} (h : Lexeme inner)
    (hopening : opening ∈ openingBrackets) (hclosing : closing ∈ closingBrackets) :
    Lexeme (opening :: (inner ++ [closing])) := by
  have hscanned := (scanned_opening hopening).append (h.scanned.append (scanned_closing hclosing))
  rw [Nat.zero_add, Nat.add_comm 1] at hscanned
  refine lexeme_of_scanned hscanned ?_
  have hbreak := (not_blank_of_bracket (List.mem_append_left _ hopening)).1
  have hbreak' := (not_blank_of_bracket (List.mem_append_right _ hclosing)).1
  simp [h.oneLine, hbreak.symm, hbreak'.symm]

/-- The characters that count outside of literals. -/
def structural : List Char := '\n' :: ' ' :: (openingBrackets ++ closingBrackets)

@[simp]
theorem mem_structural_iff {c : Char} :
    c ∈ structural ↔
      c = '\n' ∨ c = ' ' ∨ (c = '[' ∨ c = '\x7b') ∨ c = ']' ∨ c = '\x7d' := by
  simp [structural]

/-- What has nothing to drop and no brackets outside of literals is a lexeme. -/
theorem lexeme_of_scan {text : List Char} (hwhole : Whole text) (honeLine : '\n' ∉ text)
    (h : ∀ p ∈ Place.outside.scan text, p.1 = .outside → p.2 ∉ structural) : Lexeme text := by
  have hcount {chars : List Char} (hchars : chars ⊆ structural) : countOutside chars text = 0 := by
    rw [countOutside, List.countP_eq_zero]
    intro p hp hmem
    rw [decide_eq_true_eq] at hmem
    exact h p hp hmem.1 (hchars hmem.2)
  have hleft : stripped text = text := by
    rw [stripped, List.filter_eq_self.mpr, Place.map_snd_scan]
    intro p hp
    rw [decide_eq_true_eq]
    by_cases houtside : p.1 = .outside
    · have hp := h p hp houtside
      rw [mem_structural_iff, not_or, not_or] at hp
      exact .inr ⟨hp.1, hp.2.1⟩
    · exact .inl houtside
  have hopens : openingBrackets ⊆ structural := fun c hc =>
    List.mem_cons_of_mem _ (List.mem_cons_of_mem _ (List.mem_append_left _ hc))
  have hcloses : closingBrackets ⊆ structural := fun c hc =>
    List.mem_cons_of_mem _ (List.mem_cons_of_mem _ (List.mem_append_right _ hc))
  exact lexeme_of_scanned ⟨hwhole, hleft, hcount hopens, hcount hcloses⟩ honeLine

theorem lexeme_of_plain {text : List Char} (h : ∀ c ∈ text, c ≠ '"' ∧ c ∉ structural) :
    Lexeme text := by
  have hquote : '"' ∉ text := fun hc => (h _ hc).1 rfl
  refine lexeme_of_scan (whole_of_no_quote hquote) (fun hc => (h _ hc).2 (by simp)) ?_
  rw [scan_of_no_quote hquote, List.forall_mem_map]
  exact fun c hc _ => (h c hc).2

/-! ## String literals -/

/-- Inside of a literal such a text does not leave it. -/
structure Inert (text : List Char) : Prop where
  stays : Place.literal.behind text = .literal
  inside : ∀ p ∈ Place.literal.scan text, p.1 ≠ .outside
  oneLine : '\n' ∉ text

theorem inert_nil : Inert [] := ⟨rfl, nofun, nofun⟩

theorem Inert.append {first second : List Char} (hfirst : Inert first) (hsecond : Inert second) :
    Inert (first ++ second) where
  stays := by rw [Place.behind_append, hfirst.stays, hsecond.stays]
  inside := by
    rw [Place.scan_append, hfirst.stays, List.forall_mem_append]
    exact ⟨hfirst.inside, hsecond.inside⟩
  oneLine := by
    rw [List.mem_append, not_or]
    exact ⟨hfirst.oneLine, hsecond.oneLine⟩

theorem inert_plain {c : Char} (h : c ≠ '"' ∧ c ≠ '\\' ∧ c ≠ '\n') : Inert [c] where
  stays := by simp [Place.behind, Place.next, h]
  inside := by simp [Place.scan]
  oneLine := by simpa using h.2.2.symm

theorem inert_escape {mark : Char} (h : mark ≠ '\n') : Inert ['\\', mark] where
  stays := rfl
  inside := by simp [Place.scan, Place.next]
  oneLine := by simpa using h.symm

theorem inert_fourHex (digits : Grammar.FourHex) : Inert digits.text := by
  have hdigit (d : Grammar.HexDigit) : Inert [d.char] := by
    refine inert_plain ?_
    obtain ⟨value, upper⟩ := d
    revert value upper
    decide
  exact (hdigit _).append ((hdigit _).append ((hdigit _).append (hdigit _)))

theorem inert_letter (l : Grammar.Letter) : Inert l.text := by
  have hcode (digits : Grammar.FourHex) : Inert ('\\' :: 'u' :: digits.text) :=
    (inert_escape (by decide)).append (inert_fourHex digits)
  cases l with
  | plain c allowed =>
      refine inert_plain ⟨allowed.2.1, allowed.2.2, ?_⟩
      rintro rfl
      exact absurd allowed.1 (by decide)
  | short mark named known =>
      refine inert_escape ?_
      rintro rfl
      revert known
      simp [Grammar.shortEscapes]
  | code digits _ => exact hcode digits
  | pair high low _ _ => exact (hcode high).append (hcode low)

theorem inert_body (q : Grammar.Quoted) : Inert q.body := by
  unfold Grammar.Quoted.body
  induction q.letters with
  | nil => exact inert_nil
  | cons l letters ih =>
      rw [List.flatMap_cons]
      exact (inert_letter l).append ih

theorem whole_quoted (q : Grammar.Quoted) : Whole q.text := by
  change Place.literal.behind (q.body ++ ['"']) = .outside
  rw [Place.behind_append, (inert_body q).stays]
  rfl

/-- Of a literal only the opening quote stands outside. -/
theorem eq_quote_of_mem_scan (q : Grammar.Quoted) :
    ∀ p ∈ Place.outside.scan q.text, p.1 = .outside → p.2 = '"' := by
  have hbody := inert_body q
  change ∀ p ∈ (Place.outside, '"') :: Place.literal.scan (q.body ++ ['"']), _
  rw [List.forall_mem_cons, Place.scan_append, hbody.stays, List.forall_mem_append]
  refine ⟨fun _ => rfl, fun p hp houtside => ?_, by simp [Place.scan]⟩
  exact absurd houtside (hbody.inside p hp)

theorem lexeme_quote (content : List Char) : Lexeme (JsonString.quote content) := by
  obtain ⟨q, htext, -⟩ := Grammar.exists_quoted content
  rw [← htext]
  refine lexeme_of_scan (whole_quoted q) ?_ fun p hp houtside => ?_
  · simpa [Grammar.Quoted.text] using (inert_body q).oneLine
  · rw [eq_quote_of_mem_scan q p hp houtside]
    simp

/-! ## What the writer never breaks -/

theorem lexeme_plain (d : Decimal) : Lexeme d.plain := by
  have hother {c : Char} (hc : c = '"' ∨ c ∈ structural) :
      ¬ (c = '-' ∨ c = '.' ∨ c.isDigit) := by
    rw [mem_structural_iff] at hc
    rcases hc with rfl | rfl | rfl | (rfl | rfl) | rfl | rfl <;> decide
  refine lexeme_of_plain fun c hc => ?_
  have hnumeric := Decimal.mem_plain hc
  exact ⟨fun h => hother (.inl h) hnumeric, fun h => hother (.inr h) hnumeric⟩

theorem lexeme_nil : Lexeme [] := lexeme_of_plain nofun

theorem lexeme_null : Lexeme "null".toList := lexeme_of_plain (by simp)

theorem lexeme_key (key : List Char) : Lexeme (JsonString.quote key ++ [':']) :=
  (lexeme_quote key).append (lexeme_of_plain (by simp))

theorem lexeme_comma : Lexeme [','] := lexeme_of_plain (by simp)

theorem lexeme_wrapper (marker : String) (text : Option (List Char)) :
    Lexeme (Entry.wrapperText marker text) := by
  have hwrapped {payload : List Char} (h : Lexeme payload) :
      Lexeme ('\x7b' :: (JsonString.quote marker.toList ++ ':' :: (payload ++ ['\x7d']))) := by
    have hbraced : Lexeme ('\x7b' :: (_ ++ ['\x7d'])) :=
      ((lexeme_key marker.toList).append h).bracketed (by simp) (by simp)
    rwa [List.append_assoc, List.append_assoc] at hbraced
  cases text with
  | none => exact hwrapped lexeme_null
  | some text => exact hwrapped (lexeme_quote text)

theorem lexeme_listed {rows : List (List Char)} (h : ∀ row ∈ rows, Lexeme row) :
    Lexeme (Grammar.listed rows) := by
  induction rows with
  | nil => exact lexeme_nil
  | cons row rows ih =>
      rw [List.forall_mem_cons] at h
      cases rows with
      | nil => exact h.1
      | cons second rows =>
          rw [Grammar.listed_cons row (by simp)]
          exact h.1.append (lexeme_comma.append (ih h.2))

/-- The text of an entry on one line is a lexeme. -/
theorem Entry.lexeme_compactText (e : Entry) : Lexeme e.compactText := by
  induction e using byShape with
  | null => exact lexeme_null
  | boolean value =>
      cases value <;> exact lexeme_of_plain (by simp [compactText])
  | number value => exact lexeme_plain value
  | string value => exact lexeme_quote _
  | array items ih =>
      rw [compactText_array]
      exact (lexeme_listed (List.forall_mem_map.mpr ih)).bracketed (by simp) (by simp)
  | object pairs ih =>
      have hmember : ∀ pair ∈ pairs, Lexeme (compactMember pair) := by
        intro pair hpair
        have hmember := (lexeme_key pair.1.toList).append (ih pair hpair)
        rwa [List.append_assoc] at hmember
      rw [compactText_object]
      exact (lexeme_listed (List.forall_mem_map.mpr hmember)).bracketed (by simp) (by simp)
  | binary | date | time | timestamp => exact lexeme_wrapper _ _

/-! ## Open brackets -/

/-- How many brackets are open behind a character outside of literals. A closing bracket closes one,
if any is open. -/
def openPast (count : Nat) (c : Char) : Nat :=
  if c ∈ openingBrackets then count + 1 else if c ∈ closingBrackets then count - 1 else count

/-- How many brackets are open behind a text, when some are open in front of it. Brackets in string
literals do not count. -/
def openBehind (count : Nat) (text : List Char) : Nat :=
  (Place.outside.scan text).foldl
    (fun count p => if p.1 = .outside then openPast count p.2 else count) count

theorem Whole.openBehind_append {first : List Char} (h : Whole first) (count : Nat)
    (second : List Char) :
    openBehind count (first ++ second) = openBehind (openBehind count first) second := by
  rw [openBehind, Place.scan_append, h, List.foldl_append]
  rfl

@[simp]
theorem openBehind_singleton (count : Nat) (c : Char) : openBehind count [c] = openPast count c := rfl

theorem openPast_opening {c : Char} (h : c ∈ openingBrackets) (count : Nat) :
    openPast count c = count + 1 := if_pos h

theorem openPast_closing {c : Char} (h : c ∈ closingBrackets) (count : Nat) :
    openPast count c = count - 1 := by
  have hopening : c ∉ openingBrackets := by
    rcases mem_closingBrackets_iff.mp h with rfl | rfl <;> decide
  rw [openPast, if_neg hopening, if_pos h]

/-- A text that stands outside as a whole and leaves as many brackets open as it finds. -/
structure Bracketless (text : List Char) : Prop where
  whole : Whole text
  openBehind : ∀ count, openBehind count text = count

theorem bracketless_of_scan {text : List Char} (hwhole : Whole text)
    (h : ∀ p ∈ Place.outside.scan text, p.1 = .outside →
      p.2 ∉ openingBrackets ∧ p.2 ∉ closingBrackets) : Bracketless text := by
  refine ⟨hwhole, fun count => ?_⟩
  unfold ExtendedJson.openBehind
  generalize Place.outside.scan text = scanned at h
  induction scanned with
  | nil => rfl
  | cons p scanned ih =>
      obtain ⟨hp, hscanned⟩ := List.forall_mem_cons.mp h
      have hstays : (if p.1 = .outside then openPast count p.2 else count) = count := by
        split
        · next houtside =>
            obtain ⟨hopening, hclosing⟩ := hp houtside
            rw [openPast, if_neg hopening, if_neg hclosing]
        · rfl
      rw [List.foldl_cons, hstays]
      exact ih hscanned

/-- The characters that neither open nor close anything. -/
def Plain (c : Char) : Prop := c ≠ '"' ∧ c ∉ openingBrackets ∧ c ∉ closingBrackets

instance (c : Char) : Decidable (Plain c) := inferInstanceAs (Decidable (_ ∧ _))

theorem plain_of_isDigit {c : Char} (h : c.isDigit) : Plain c := by
  simp only [Plain, mem_openingBrackets_iff, mem_closingBrackets_iff]
  refine ⟨?_, ?_, ?_⟩
  · rintro rfl
    contradiction
  · rintro (rfl | rfl) <;> contradiction
  · rintro (rfl | rfl) <;> contradiction

theorem bracketless_of_plain {text : List Char} (h : ∀ c ∈ text, Plain c) : Bracketless text := by
  have hquote : '"' ∉ text := fun hc => (h _ hc).1 rfl
  refine bracketless_of_scan (whole_of_no_quote hquote) ?_
  rw [scan_of_no_quote hquote, List.forall_mem_map]
  exact fun c hc _ => (h c hc).2

theorem bracketless_nil : Bracketless [] := bracketless_of_plain nofun

theorem bracketless_quoted (q : Grammar.Quoted) : Bracketless q.text :=
  bracketless_of_scan (whole_quoted q) fun p hp houtside => by
    rw [eq_quote_of_mem_scan q p hp houtside]
    decide

theorem bracketless_gap (gap : Grammar.Gap) : Bracketless gap.text :=
  bracketless_of_plain fun c hc => by
    rcases gap.blank c hc with rfl | rfl | rfl | rfl <;> decide

theorem bracketless_numeral (n : Grammar.Numeral) : Bracketless n.text := by
  have hdigits (run : Grammar.Digits) : ∀ c ∈ run.text, Plain c :=
    fun c hc => plain_of_isDigit (run.digits c hc)
  have hsign : ∀ c ∈ n.signText, Plain c := by
    unfold Grammar.Numeral.signText
    split
    · exact List.forall_mem_singleton.mpr (by decide)
    · exact nofun
  have hfraction : ∀ c ∈ n.fractionText, Plain c := by
    unfold Grammar.Numeral.fractionText
    split
    · exact nofun
    · exact List.forall_mem_cons.mpr ⟨by decide, hdigits _⟩
  have hexponent : ∀ c ∈ n.exponentText, Plain c := by
    unfold Grammar.Numeral.exponentText
    split
    · exact nofun
    · next e _ =>
        refine List.forall_mem_cons.mpr ⟨?_, List.forall_mem_append.mpr ⟨?_, hdigits _⟩⟩
        · rcases e.mark_mem with h | h <;> rw [h] <;> decide
        · rcases e.sign_mem with h | h | h <;> rw [h]
          · exact nofun
          · exact List.forall_mem_singleton.mpr (by decide)
          · exact List.forall_mem_singleton.mpr (by decide)
  refine bracketless_of_plain (List.forall_mem_append.mpr ⟨hsign, ?_⟩)
  exact List.forall_mem_append.mpr ⟨hdigits _, List.forall_mem_append.mpr ⟨hfraction, hexponent⟩⟩

end ExtendedJson
