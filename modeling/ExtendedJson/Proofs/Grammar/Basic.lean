import ExtendedJson.Proofs.EntryShape
import ExtendedJson.Proofs.Members

/-!
# The grammar of documents

What a document looks like and what it says, without a reader. A `Spelling` is a derivation of the
JSON grammar kept as data: it records every choice that a writer of JSON is free to make, such as the
blanks between tokens, the spelling of each character of a string and the exponent of each number,
and no derivation exists for a text that breaks a rule, because the rules are fields of the tokens.

Three readings of a spelling are defined here by recursion on it: its text, the nesting of its
brackets, and its meaning, which is missing exactly when some wrapper carries a text that names
nothing. The limits of a reader are conditions on a spelling and not part of the grammar.
-/

namespace ExtendedJson.Grammar

/-! ## Numbers -/

/-- At least one decimal digit. -/
structure Digits where
  text : List Char
  digits : ∀ c ∈ text, c.isDigit
  nonempty : text ≠ []

/-- The number that a run of digits spells. -/
def Digits.value (run : Digits) : Nat := Nat.ofDigitChars 10 run.text 0

/-- The letter `e` in either case, a sign that may be left out, and digits. -/
structure Exponent where
  mark : Char
  sign : List Char
  digits : Digits
  mark_mem : mark = 'e' ∨ mark = 'E'
  sign_mem : sign = [] ∨ sign = ['+'] ∨ sign = ['-']

/-- A number. Its integer part is a lone zero or begins with another digit. -/
structure Numeral where
  negative : Bool
  whole : Digits
  fraction : Option Digits
  exponent : Option Exponent
  noLeadingZero : whole.text.head? = some '0' → whole.text = ['0']

namespace Exponent

def text (e : Exponent) : List Char := e.mark :: (e.sign ++ e.digits.text)

def value (e : Exponent) : Int := if e.sign = ['-'] then -(e.digits.value : Int) else e.digits.value

end Exponent

namespace Numeral

/-- The digits behind the point. -/
def fractionDigits (n : Numeral) : List Char :=
  match n.fraction with
  | none => []
  | some run => run.text

def fractionText (n : Numeral) : List Char :=
  match n.fraction with
  | none => []
  | some run => '.' :: run.text

def exponentText (n : Numeral) : List Char :=
  match n.exponent with
  | none => []
  | some e => e.text

def exponentValue (n : Numeral) : Int :=
  match n.exponent with
  | none => 0
  | some e => e.value

/-- The exponent without its sign. -/
def magnitude (n : Numeral) : Nat :=
  match n.exponent with
  | none => 0
  | some e => e.digits.value

def signText (n : Numeral) : List Char := if n.negative then ['-'] else []

def text (n : Numeral) : List Char :=
  n.signText ++ (n.whole.text ++ (n.fractionText ++ n.exponentText))

/-- The digits without the point, at a scale of the digits behind it less the exponent. -/
def value (n : Numeral) : Decimal :=
  let digits : Int := Nat.ofDigitChars 10 (n.whole.text ++ n.fractionDigits) 0
  ⟨if n.negative then -digits else digits, n.fractionDigits.length - n.exponentValue⟩

end Numeral

/-! ## Strings -/

/-- A hexadecimal digit; the case matters to those above nine only. -/
structure HexDigit where
  value : Fin 16
  upper : Bool

def HexDigit.char (d : HexDigit) : Char :=
  if d.value.val < 10 then Char.ofNat ('0'.toNat + d.value)
  else Char.ofNat ((if d.upper then 'A'.toNat else 'a'.toNat) + (d.value - 10))

/-- Four hexadecimal digits. -/
structure FourHex where
  first : HexDigit
  second : HexDigit
  third : HexDigit
  fourth : HexDigit

namespace FourHex

def text (d : FourHex) : List Char := [d.first.char, d.second.char, d.third.char, d.fourth.char]

def value (d : FourHex) : Nat :=
  4096 * d.first.value + 256 * d.second.value + 16 * d.third.value + d.fourth.value

end FourHex

/-- The characters that have an escape of two characters, after the one behind the backslash. -/
def shortEscapes : List (Char × Char) :=
  [('"', '"'), ('\\', '\\'), ('/', '/'), ('b', '\x08'), ('f', '\x0c'), ('n', '\n'), ('r', '\r'),
    ('t', '\t')]

/-- How one character of a string is spelled: as itself, by a short escape, by its code, or by the
two surrogates of its code. -/
inductive Letter where
  | plain (c : Char) (allowed : ' ' ≤ c ∧ c ≠ '"' ∧ c ≠ '\\')
  | short (mark named : Char) (known : (mark, named) ∈ shortEscapes)
  | code (digits : FourHex) (noSurrogate : digits.value < 0xD800 ∨ 0xE000 ≤ digits.value)
  | pair (high low : FourHex) (high_mem : 0xD800 ≤ high.value ∧ high.value < 0xDC00)
    (low_mem : 0xDC00 ≤ low.value ∧ low.value < 0xE000)

namespace Letter

def text : Letter → List Char
  | plain c _ => [c]
  | short mark _ _ => ['\\', mark]
  | code digits _ => '\\' :: 'u' :: digits.text
  | pair high low _ _ => '\\' :: 'u' :: (high.text ++ '\\' :: 'u' :: low.text)

def char : Letter → Char
  | plain c _ => c
  | short _ named _ => named
  | code digits _ => Char.ofNat digits.value
  | pair high low _ _ =>
    Char.ofNat (0x10000 + (high.value - 0xD800) * 0x400 + (low.value - 0xDC00))

end Letter

/-- A string literal. -/
structure Quoted where
  letters : List Letter

namespace Quoted

/-- The literal from behind its opening quote up to its closing one. -/
def body (q : Quoted) : List Char := q.letters.flatMap Letter.text

def text (q : Quoted) : List Char := '"' :: (q.body ++ ['"'])

def content (q : Quoted) : List Char := q.letters.map Letter.char

end Quoted

/-! ## Blanks and lists -/

/-- What may stand between tokens. -/
structure Gap where
  text : List Char
  blank : ∀ c ∈ text, c = ' ' ∨ c = '\t' ∨ c = '\n' ∨ c = '\r'

/-- Something with the blanks on either side. -/
structure Placed (α : Type) where
  before : Gap
  item : α
  after : Gap

/-- The text of something placed, given that of the thing. -/
def Placed.textBy {α : Type} (text : α → List Char) (p : Placed α) : List Char :=
  p.before.text ++ (text p.item ++ p.after.text)

/-- Texts with a comma between any two. -/
def listed : List (List Char) → List Char
  | [] => []
  | [text] => text
  | text :: texts => text ++ ',' :: listed texts

/-! ## Values -/

/-- How an entry is spelled. -/
inductive Spelling where
  | null
  | boolean (value : Bool)
  | number (token : Numeral)
  | string (token : Quoted)
  | array (gap : Gap) (items : List (Placed Spelling))
  | object (gap : Gap) (members : List (Placed Quoted × Placed Spelling))

namespace Spelling

mutual

def text : Spelling → List Char
  | .null => "null".toList
  | .boolean value => if value then "true".toList else "false".toList
  | .number token => token.text
  | .string token => token.text
  | .array gap items => '[' :: (gap.text ++ (listed (itemTexts items) ++ [']']))
  | .object gap members => '\x7b' :: (gap.text ++ (listed (memberTexts members) ++ ['\x7d']))

def itemTexts : List (Placed Spelling) → List (List Char)
  | [] => []
  | ⟨before, item, after⟩ :: items =>
    (before.text ++ (item.text ++ after.text)) :: itemTexts items

def memberTexts : List (Placed Quoted × Placed Spelling) → List (List Char)
  | [] => []
  | (key, ⟨before, value, after⟩) :: members =>
    (key.textBy Quoted.text ++ ':' :: (before.text ++ (value.text ++ after.text))) ::
      memberTexts members

end

mutual

/-- How deep brackets nest. Brackets without content count. -/
def depth : Spelling → Nat
  | .array _ items => depthItems items + 1
  | .object _ members => depthMembers members + 1
  | _ => 0

def depthItems : List (Placed Spelling) → Nat
  | [] => 0
  | ⟨_, item, _⟩ :: items => max item.depth (depthItems items)

def depthMembers : List (Placed Quoted × Placed Spelling) → Nat
  | [] => 0
  | (_, ⟨_, value, _⟩) :: members => max value.depth (depthMembers members)

end

mutual

/-- The numbers in a spelling, in order. -/
def numerals : Spelling → List Numeral
  | .number token => [token]
  | .array _ items => numeralsItems items
  | .object _ members => numeralsMembers members
  | _ => []

def numeralsItems : List (Placed Spelling) → List Numeral
  | [] => []
  | ⟨_, item, _⟩ :: items => item.numerals ++ numeralsItems items

def numeralsMembers : List (Placed Quoted × Placed Spelling) → List Numeral
  | [] => []
  | (_, ⟨_, value, _⟩) :: members => value.numerals ++ numeralsMembers members

end

/-- Whether no exponent is larger than a limit. -/
def ExponentsWithin (limit : Nat) (s : Spelling) : Prop := ∀ n ∈ s.numerals, n.magnitude ≤ limit

end Spelling

/-! ## Meanings -/

/-- The kind of extended entry that a key stands for. -/
def markers : List (String × Entry.Kind) :=
  [("%bn%", .binary), ("%dt%", .date), ("%tm%", .time), ("%ts%", .timestamp)]

/-- The extended entry of a kind that has no payload. -/
def absent : Entry.Kind → Entry
  | .binary => .binary none
  | .date => .date none
  | .time => .time none
  | .timestamp => .timestamp none
  | _ => .null

/-- What an object with these members stands for: the extended entry that its text names or that is
absent, when the only key is a marker with a string or `null`, and the object itself otherwise.
Nothing, when the text under the marker does not decode. -/
def standsFor? (members : List (String × Entry)) : Option Entry :=
  match members with
  | [(key, .string text)] =>
    match markers.lookup key with
    | some kind => (Entry.decodePayload kind text).toOption.map Payload.toEntry
    | none => some (.object ⟨members⟩)
  | [(key, .null)] =>
    match markers.lookup key with
    | some kind => some (absent kind)
    | none => some (.object ⟨members⟩)
  | _ => some (.object ⟨members⟩)

namespace Spelling

mutual

/-- The entry that is spelled, unless some wrapper inside has a text that names nothing. -/
def meaning? : Spelling → Option Entry
  | .null => some .null
  | .boolean value => some (.boolean value)
  | .number token => some (.number token.value)
  | .string token => some (.string (String.ofList token.content))
  | .array _ items =>
    match itemMeanings? items with
    | none => none
    | some entries => some (.array entries)
  | .object _ members =>
    match memberMeanings? members with
    | none => none
    | some pairs => standsFor? (Members.merged pairs)

def itemMeanings? : List (Placed Spelling) → Option (List Entry)
  | [] => some []
  | ⟨_, item, _⟩ :: items =>
    match item.meaning?, itemMeanings? items with
    | some entry, some entries => some (entry :: entries)
    | _, _ => none

def memberMeanings? : List (Placed Quoted × Placed Spelling) → Option (List (String × Entry))
  | [] => some []
  | (key, ⟨_, value, _⟩) :: members =>
    match value.meaning?, memberMeanings? members with
    | some entry, some pairs => some ((String.ofList key.item.content, entry) :: pairs)
    | _, _ => none

end

end Spelling

/-- A document: an entry with blanks around it. -/
abbrev Document := Placed Spelling

def Document.text (d : Document) : List Char := d.textBy Spelling.text

/-! ## The readings, over lists

The recursions above go through the lists of items and members by functions of their own. What they
say is said here once over the lists themselves, which is how everything after this uses them. -/

namespace Spelling

def memberText (member : Placed Quoted × Placed Spelling) : List Char :=
  member.1.textBy Quoted.text ++ ':' :: member.2.textBy Spelling.text

theorem itemTexts_eq_map (items : List (Placed Spelling)) :
    itemTexts items = items.map (Placed.textBy Spelling.text) := by
  induction items with
  | nil => rfl
  | cons item items ih => rw [itemTexts, ih]; rfl

theorem memberTexts_eq_map (members : List (Placed Quoted × Placed Spelling)) :
    memberTexts members = members.map memberText := by
  induction members with
  | nil => rfl
  | cons member members ih => rw [memberTexts, ih]; rfl

theorem depthItems_le_iff {items : List (Placed Spelling)} {n : Nat} :
    depthItems items ≤ n ↔ ∀ p ∈ items, p.item.depth ≤ n := by
  induction items with
  | nil => simp [depthItems]
  | cons item items ih =>
      rw [List.forall_mem_cons, ← ih, ← Nat.max_le]
      rfl

theorem depthMembers_le_iff {members : List (Placed Quoted × Placed Spelling)} {n : Nat} :
    depthMembers members ≤ n ↔ ∀ m ∈ members, m.2.item.depth ≤ n := by
  induction members with
  | nil => simp [depthMembers]
  | cons member members ih =>
      rw [List.forall_mem_cons, ← ih, ← Nat.max_le]
      rfl

theorem mem_numerals_array_iff {n : Numeral} {gap : Gap} {items : List (Placed Spelling)} :
    n ∈ (array gap items).numerals ↔ ∃ p ∈ items, n ∈ p.item.numerals := by
  rw [numerals]
  induction items with
  | nil => simp [numeralsItems]
  | cons item items ih => rw [numeralsItems, List.mem_append, ih, List.exists_mem_cons_iff]

theorem mem_numerals_object_iff {n : Numeral} {gap : Gap}
    {members : List (Placed Quoted × Placed Spelling)} :
    n ∈ (object gap members).numerals ↔ ∃ m ∈ members, n ∈ m.2.item.numerals := by
  rw [numerals]
  induction members with
  | nil => simp [numeralsMembers]
  | cons member members ih => rw [numeralsMembers, List.mem_append, ih, List.exists_mem_cons_iff]

theorem exponentsWithin_array_iff {limit : Nat} {gap : Gap} {items : List (Placed Spelling)} :
    (array gap items).ExponentsWithin limit ↔ ∀ p ∈ items, p.item.ExponentsWithin limit := by
  simp only [ExponentsWithin, mem_numerals_array_iff, forall_exists_index, and_imp]
  exact ⟨fun h p hp n hn => h n p hp hn, fun h n p hp hn => h p hp n hn⟩

theorem exponentsWithin_object_iff {limit : Nat} {gap : Gap}
    {members : List (Placed Quoted × Placed Spelling)} :
    (object gap members).ExponentsWithin limit ↔
      ∀ m ∈ members, m.2.item.ExponentsWithin limit := by
  simp only [ExponentsWithin, mem_numerals_object_iff, forall_exists_index, and_imp]
  exact ⟨fun h m hm n hn => h n m hm hn, fun h n m hm hn => h m hm n hn⟩

theorem itemMeanings?_eq_some_iff {items : List (Placed Spelling)} {entries : List Entry} :
    itemMeanings? items = some entries ↔
      List.Forall₂ (fun p entry => p.item.meaning? = some entry) items entries := by
  symm
  apply forall₂_iff_of_cons
  · simp [itemMeanings?, eq_comm]
  · intro ⟨before, item, after⟩ items entries
    rw [itemMeanings?]
    cases item.meaning? <;> cases itemMeanings? items <;> simp [eq_comm]

theorem memberMeanings?_eq_some_iff {members : List (Placed Quoted × Placed Spelling)}
    {pairs : List (String × Entry)} :
    memberMeanings? members = some pairs ↔
      List.Forall₂ (fun m pair => String.ofList m.1.item.content = pair.1 ∧
        m.2.item.meaning? = some pair.2) members pairs := by
  symm
  apply forall₂_iff_of_cons
  · simp [memberMeanings?, eq_comm]
  · intro ⟨key, before, value, after⟩ members pairs
    rw [memberMeanings?]
    cases value.meaning? <;> cases memberMeanings? members <;> simp [eq_comm]

end Spelling

theorem listed_cons (text : List Char) {texts : List (List Char)} (h : texts ≠ []) :
    listed (text :: texts) = text ++ ',' :: listed texts := by
  cases texts with
  | nil => exact absurd rfl h
  | cons second texts => rfl

theorem exists_listed_eq_append (text : List Char) (texts : List (List Char)) :
    ∃ behind, listed (text :: texts) = text ++ behind := by
  cases texts with
  | nil => exact ⟨[], (List.append_nil _).symm⟩
  | cons second texts => exact ⟨_, rfl⟩

end ExtendedJson.Grammar
