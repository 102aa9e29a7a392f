import ExtendedJson.Proofs.Grammar.Refusals
import ExtendedJson.Proofs.TreeShape

/-!
# Call trees as texts

A call tree that is made of what JSON has can be written down as a text: absent data as `null`,
optional data as what they hold, integers in decimal, sequences and maps in their order with
whatever keys they have. Reading the tree and reading the text come to the same: one spelling of the
text means what the tree stands for, members that share a key, wrappers and all. The tree may nest
without limit and the text may not, so the texts have to be within the levels of the parser.
-/

namespace ExtendedJson

open Grammar

/-- The plain text of an integer is its usual one. -/
theorem Decimal.plain_ofInt (n : Int) : (ofInt n).plain = (toString n).toList := by
  have hdigits : (ofInt n).plain = (ofInt n).signText ++ Nat.toDigits 10 n.natAbs := by
    simp [plain, ofInt, digitText]
  rw [hdigits, signText, show (ofInt n).unscaled = n from rfl]
  cases n with
  | ofNat n =>
      rw [show toString (Int.ofNat n) = n.repr from rfl, Nat.repr, String.toList_ofList,
        if_neg (by simp)]
      rfl
  | negSucc n =>
      rw [show toString (Int.negSucc n) = "-" ++ (n + 1).repr from rfl, String.toList_append,
        Nat.repr, String.toList_ofList, String.toList_ofList, if_pos (Int.negSucc_lt_zero n)]
      rfl

namespace CallTree

/-! ## Texts -/

mutual

/-- The text of a datum, when it is made of what JSON has and all keys are text. -/
def json? : CallTree → Option (List Char)
  | .unit => .some "null".toList
  | .none => .some "null".toList
  | .some inner => json? inner
  | .boolean value => .some (if value then "true".toList else "false".toList)
  | .int64 value => .some (toString value.toInt).toList
  | .uint64 value => .some (toString value.toNat).toList
  | .text value => .some (JsonString.quote value.toList)
  | .seq _ items =>
    match itemTexts? items with
    | .some rows => .some ('[' :: (listed rows ++ [']']))
    | .none => .none
  | .map _ pairs =>
    match memberTexts? pairs with
    | .some rows => .some ('\x7b' :: (listed rows ++ ['\x7d']))
    | .none => .none
  | _ => .none

def itemTexts? : List CallTree → Option (List (List Char))
  | [] => .some []
  | item :: items =>
    match json? item, itemTexts? items with
    | .some row, .some rows => .some (row :: rows)
    | _, _ => .none

def memberTexts? : List (CallTree × CallTree) → Option (List (List Char))
  | [] => .some []
  | (.text key, value) :: pairs =>
    match json? value, memberTexts? pairs with
    | .some row, .some rows => .some ((JsonString.quote key.toList ++ ':' :: row) :: rows)
    | _, _ => .none
  | _ :: _ => .none

end

mutual

/-- How deep sequences and maps nest. Those without content count. -/
def nesting : CallTree → Nat
  | .some inner => nesting inner
  | .newtype inner => nesting inner
  | .seq _ items => itemNesting items + 1
  | .map _ pairs => pairNesting pairs + 1
  | _ => 0

def itemNesting : List CallTree → Nat
  | [] => 0
  | item :: items => max (nesting item) (itemNesting items)

def pairNesting : List (CallTree × CallTree) → Nat
  | [] => 0
  | (_, value) :: pairs => max (nesting value) (pairNesting pairs)

end

theorem itemTexts?_eq_some_iff {items : List CallTree} {rows : List (List Char)} :
    itemTexts? items = .some rows ↔
      List.Forall₂ (fun item row => item.json? = .some row) items rows := by
  symm
  apply forall₂_iff_of_cons
  · simp [itemTexts?, eq_comm]
  · intro item items rows
    rw [itemTexts?]
    cases item.json? <;> cases itemTexts? items <;> simp [eq_comm]

/-- The text of a member, when it has one. -/
def memberText? (pair : CallTree × CallTree) : Option (List Char) :=
  match pair with
  | (.text key, value) => value.json?.map fun row => JsonString.quote key.toList ++ ':' :: row
  | _ => .none

theorem memberTexts?_eq_some_iff {pairs : List (CallTree × CallTree)} {rows : List (List Char)} :
    memberTexts? pairs = .some rows ↔
      List.Forall₂ (fun pair row => memberText? pair = .some row) pairs rows := by
  symm
  apply forall₂_iff_of_cons
  · simp [memberTexts?, eq_comm]
  · intro (key, value) pairs rows
    cases key with
    | text key =>
        rw [memberTexts?, memberText?]
        cases value.json? <;> cases memberTexts? pairs <;> simp [eq_comm]
    | _ => simp [memberTexts?, memberText?]

/-! ## Spellings -/

/-- A spelling that reads as a tree does, with brackets as deep as the tree nests. -/
structure ReadsAs (s : Spelling) (tree : CallTree) : Prop where
  depth : s.depth = tree.nesting
  exponents : s.ExponentsWithin 0
  meaning : s.meaning? = tree.toEntry.toOption

theorem ReadsAs.of_fits {s : Spelling} {tree : CallTree} {e : Entry} (hfits : Fits ⟨0, 0⟩ 0 s e)
    (hnesting : tree.nesting = 0) (hread : tree.toEntry = .ok e) : ReadsAs s tree where
  depth := (Nat.le_zero.mp hfits.1).trans hnesting.symm
  exponents := hfits.2.1
  meaning := by
    rw [hfits.2.2, hread]
    rfl

theorem exists_spelling_integer {tree : CallTree} (n : Int) (hnesting : tree.nesting = 0)
    (hread : tree.toEntry = .ok (Entry.ofInt n)) :
    ∃ s : Spelling, s.text = (toString n).toList ∧ ReadsAs s tree := by
  obtain ⟨numeral, htext, hmagnitude, hvalue⟩ :=
    Decimal.exists_numeral (d := .ofInt n) (Or.inl (Int.le_refl 0))
  refine ⟨.number numeral, ?_, .of_fits (fits_number_iff.mpr ⟨Nat.le_of_eq hmagnitude, ?_⟩)
    hnesting hread⟩
  · rw [Spelling.text, htext, Decimal.plain_ofInt]
  · rw [hvalue]
    rfl

/-! ## Lists of spellings -/

/-- Parts of which each has a spelling for its text have spellings for all their texts. -/
theorem exists_parts {α Y : Type} {row? : α → Option (List Char)} (text : Y → List Char)
    (reads : Y → α → Prop) {parts : List α} {rows : List (List Char)}
    (h : ∀ part ∈ parts, ∀ row, row? part = .some row → ∃ y, text y = row ∧ reads y part)
    (hrows : List.Forall₂ (fun part row => row? part = .some row) parts rows) :
    ∃ ys, ys.map text = rows ∧ List.Forall₂ (fun part y => reads y part) parts ys := by
  induction hrows with
  | nil => exact ⟨[], rfl, .nil⟩
  | cons hrow _ ih =>
      rw [List.forall_mem_cons] at h
      obtain ⟨y, hy, hreads⟩ := h.1 _ hrow
      obtain ⟨ys, hys, hmore⟩ := ih h.2
      exact ⟨y :: ys, by rw [List.map_cons, hy, hys], .cons hreads hmore⟩

section Lists

variable {items : List CallTree} {placed : List (Placed Spelling)}
  {pairs : List (CallTree × CallTree)} {members : List (Placed Quoted × Placed Spelling)}

theorem depthItems_eq (h : List.Forall₂ (fun item p => ReadsAs p.item item) items placed) :
    Spelling.depthItems placed = itemNesting items := by
  induction h with
  | nil => rfl
  | cons hfirst _ ih => exact congrArg₂ max hfirst.depth ih

theorem itemMeanings?_eq (h : List.Forall₂ (fun item p => ReadsAs p.item item) items placed) :
    Spelling.itemMeanings? placed = (toItems items).toOption := by
  induction h with
  | nil => rfl
  | @cons item p items placed hfirst _ ih =>
      rw [Spelling.itemMeanings?, hfirst.meaning, ih, toItems]
      cases item.toEntry with
      | error _ => rfl
      | ok entry => cases toItems items <;> rfl

/-- A member that reads as a pair of trees does, of which the first is the key. -/
structure MemberReadsAs (m : Placed Quoted × Placed Spelling) (pair : CallTree × CallTree) :
    Prop where
  key : toKey pair.1 = .ok (String.ofList m.1.item.content)
  value : ReadsAs m.2.item pair.2

theorem depthMembers_eq (h : List.Forall₂ (fun pair m => MemberReadsAs m pair) pairs members) :
    Spelling.depthMembers members = pairNesting pairs := by
  induction h with
  | nil => rfl
  | cons hfirst _ ih => exact congrArg₂ max hfirst.value.depth ih

theorem memberMeanings?_eq (h : List.Forall₂ (fun pair m => MemberReadsAs m pair) pairs members) :
    Spelling.memberMeanings? members = (toMembers pairs).toOption := by
  induction h with
  | nil => rfl
  | @cons pair m pairs members hfirst _ ih =>
      obtain ⟨key, value⟩ := pair
      rw [Spelling.memberMeanings?, hfirst.value.meaning, ih, toMembers, hfirst.key]
      cases value.toEntry with
      | error _ => rfl
      | ok entry => cases toMembers pairs <;> rfl

end Lists

/-! ## Trees -/

theorem exists_spelling_seq {length : Option Nat} {items : List CallTree}
    (h : ∀ item ∈ items, ∀ text, item.json? = .some text →
      ∃ s : Spelling, s.text = text ∧ ReadsAs s item) {text : List Char}
    (htext : json? (.seq length items) = .some text) :
    ∃ s : Spelling, s.text = text ∧ ReadsAs s (.seq length items) := by
  rw [json?] at htext
  split at htext
  · next rows hrows =>
      injection htext with htext
      obtain ⟨placed, hplaced, hreads⟩ := exists_parts (Placed.textBy Spelling.text)
        (fun p item => ReadsAs p.item item) (fun item hitem row hrow => by
          obtain ⟨s, hs, hreads⟩ := h item hitem row hrow
          exact ⟨⟨.empty, s, .empty⟩, by simp [Placed.textBy, Gap.empty, hs], hreads⟩)
        (itemTexts?_eq_some_iff.mp hrows)
      refine ⟨.array .empty placed, ?_, ?_, ?_, ?_⟩
      · rw [← htext, ← hplaced, Spelling.text, Spelling.itemTexts_eq_map]
        rfl
      · rw [Spelling.depth, nesting, depthItems_eq hreads]
      · rw [Spelling.exponentsWithin_array_iff]
        exact forall_mem_of_forall₂ hreads fun _ _ _ h => h.exponents
      · rw [Spelling.meaning?, itemMeanings?_eq hreads, toEntry]
        cases toItems items <;> rfl
  · cases htext

theorem exists_memberText {pair : CallTree × CallTree}
    (h : ∀ text, pair.2.json? = .some text → ∃ s : Spelling, s.text = text ∧ ReadsAs s pair.2)
    {row : List Char} (hrow : memberText? pair = .some row) :
    ∃ m : Placed Quoted × Placed Spelling, Spelling.memberText m = row ∧ MemberReadsAs m pair := by
  obtain ⟨key, value⟩ := pair
  cases key with
  | text key =>
      obtain ⟨text, htext, rfl⟩ := Option.map_eq_some_iff.mp hrow
      obtain ⟨s, hs, hreads⟩ := h text htext
      obtain ⟨q, hq, hcontent⟩ := exists_quoted key.toList
      refine ⟨(⟨.empty, q, .empty⟩, ⟨.empty, s, .empty⟩), ?_, ?_, hreads⟩
      · simp [Spelling.memberText, Placed.textBy, Gap.empty, hq, hs]
      · rw [hcontent, String.ofList_toList]
        rfl
  | _ => cases hrow

theorem exists_spelling_map {length : Option Nat} {pairs : List (CallTree × CallTree)}
    (h : ∀ pair ∈ pairs, ∀ text, pair.2.json? = .some text →
      ∃ s : Spelling, s.text = text ∧ ReadsAs s pair.2) {text : List Char}
    (htext : json? (.map length pairs) = .some text) :
    ∃ s : Spelling, s.text = text ∧ ReadsAs s (.map length pairs) := by
  rw [json?] at htext
  split at htext
  · next rows hrows =>
      injection htext with htext
      obtain ⟨members, hmembers, hreads⟩ := exists_parts Spelling.memberText MemberReadsAs
        (fun pair hpair row => exists_memberText (h pair hpair))
        (memberTexts?_eq_some_iff.mp hrows)
      refine ⟨.object .empty members, ?_, ?_, ?_, ?_⟩
      · rw [← htext, ← hmembers, Spelling.text, Spelling.memberTexts_eq_map]
        rfl
      · rw [Spelling.depth, nesting, depthMembers_eq hreads]
      · rw [Spelling.exponentsWithin_object_iff]
        exact forall_mem_of_forall₂ hreads fun _ _ _ h => h.value.exponents
      · rw [Spelling.meaning?, memberMeanings?_eq hreads, toEntry]
        cases toMembers pairs with
        | error _ => rfl
        | ok read =>
            -- both put the members one by one before they look at the object
            simp only [Except.toOption]
            rw [← toOption_ofObject, ← Members.pairs_ofPairs]
            cases Entry.ofObject (Members.ofPairs read) <;> rfl
  · cases htext

/-- The text of a tree is spelled as the tree is read. -/
theorem exists_spelling {tree : CallTree} :
    ∀ {text : List Char}, tree.json? = .some text →
      ∃ s : Spelling, s.text = text ∧ ReadsAs s tree := by
  induction tree using byShape with
  | unit | none =>
      intro text htext
      exact ⟨.null, Option.some.inj htext, .of_fits (fits_null _ 0) rfl rfl⟩
  | some inner ih =>
      intro text htext
      obtain ⟨s, hs, hreads⟩ := ih htext
      exact ⟨s, hs, hreads.depth, hreads.exponents, hreads.meaning⟩
  | boolean value =>
      intro text htext
      exact ⟨.boolean value, Option.some.inj htext, .of_fits (fits_boolean _ 0 value) rfl rfl⟩
  | int64 value =>
      intro text htext
      rw [← Option.some.inj htext]
      exact exists_spelling_integer value.toInt rfl rfl
  | uint64 value =>
      intro text htext
      rw [← Option.some.inj htext]
      exact exists_spelling_integer value.toNat rfl rfl
  | text value =>
      intro text htext
      obtain ⟨q, hq, hcontent⟩ := exists_quoted value.toList
      refine ⟨.string q, hq.trans (Option.some.inj htext), .of_fits (fits_string _ 0 q) rfl ?_⟩
      rw [hcontent, String.ofList_toList]
      rfl
  | seq length items ih =>
      exact exists_spelling_seq fun item hitem text htext => ih item hitem htext
  | map length pairs ih =>
      exact exists_spelling_map fun pair hpair text htext => ih pair hpair htext
  | newtype | int128 | uint128 | double | char | bytes =>
      intro text htext
      cases htext

/-- Reading a tree and reading its text give the same entry, or both fail. -/
theorem toEntry_agrees_with_parseEntry {tree : CallTree} {text : List Char}
    (options : ParserOptions) (htext : tree.json? = .some text)
    (hdepth : tree.nesting ≤ options.maxDepth) :
    (∀ e, tree.toEntry = .ok e ↔ parseEntry (String.ofList text) options = .ok e) ∧
      ((∃ error, tree.toEntry = .error error) ↔
        ∃ error, parseEntry (String.ofList text) options = .error error) := by
  obtain ⟨s, rfl, hreads⟩ := exists_spelling htext
  have hdocument : Document.text ⟨.empty, s, .empty⟩ = s.text := List.append_nil _
  have hok : ∀ e, tree.toEntry = .ok e ↔ parseEntry (String.ofList s.text) options = .ok e := by
    intro e
    have hexponents : s.ExponentsWithin options.maxExponent :=
      fun n hn => (hreads.exponents n hn).trans (Nat.zero_le _)
    rw [← hdocument, parseEntry_document_eq_ok_iff hexponents, hreads.depth, hreads.meaning]
    cases tree.toEntry <;> simp [Except.toOption, hdepth]
  refine ⟨hok, ?_⟩
  cases htree : tree.toEntry with
  | ok e => simp [(hok e).mp htree]
  | error error =>
      cases hread : parseEntry (String.ofList s.text) options with
      | ok e => simp [(hok e).mpr hread] at htree
      | error error => simp

/-- A key that comes twice, the second time with a wrapper under it; and a wrapper that names no
date. -/
theorem toEntry_agrees_with_parseEntry_nested :
    let pairs : CallTree := .map .none [
      (.text "a", .seq .none [.int64 (-5), .uint64 7, .some (.boolean true), .unit]),
      (.text "a", .map .none [(.text "%bn%", .some (.text "00ff"))])]
    let wrapper : CallTree := .map .none [(.text "%dt%", .text "2023-02-29")]
    parseEntry "\x7b\"a\":[-5,7,true,null],\"a\":\x7b\"%bn%\":\"00ff\"\x7d\x7d" =
        .ok (.object ⟨[("a", .binary (Option.some [0, 255]))]⟩) ∧
      (pairs.nesting = 2 ∧ wrapper.nesting = 1) ∧
      ∃ error, parseEntry "\x7b\"%dt%\":\"2023-02-29\"\x7d" = .error error := by
  intro pairs wrapper
  have hpairs : pairs.toEntry = .ok (.object ⟨[("a", .binary (Option.some [0, 255]))]⟩) := by rfl
  have hwrapper : ∃ error, wrapper.toEntry = .error error := ⟨_, rfl⟩
  exact ⟨((toEntry_agrees_with_parseEntry {} rfl (by decide)).1 _).mp hpairs,
    ⟨rfl, rfl⟩, (toEntry_agrees_with_parseEntry {} rfl (by decide)).2.mp hwrapper⟩

end CallTree

end ExtendedJson
