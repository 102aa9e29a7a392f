import ExtendedJson.Proofs.ParserRuns

/-!
# Raising a limit never changes a settled answer

The limits of a parser turn up at two places only, before a bracket is opened and behind the digits of
an exponent, and at both they do nothing but refuse. So a reading that met neither refusal goes the
same way under larger limits, and that is said here of one reader after the other, for two readers
side by side of which one has more levels left. A reading that did meet the depth limit stands in
front of an opening bracket with as many brackets open as the limit allows, by what `Blame` knows of
such a failure.
-/

namespace ExtendedJson

/-- The errors that a larger limit can do away with. -/
def Error.ofLimit : Error → Bool
  | .depthLimit _ => true
  | .malformed _ _ fault => fault = .exponentOutOfRange
  | _ => false

variable {α β : Type}

/-- The second of two readings gives what the first gave, unless that ran into a limit. -/
def Kept (r r₂ : Except Failure β) : Prop :=
  (∃ failure, r = .error failure ∧ failure.error.ofLimit) ∨ r₂ = r

theorem Kept.refl (r : Except Failure β) : Kept r r := .inr rfl

/-- Two readers, of which the second gives what the first gives unless that runs into a limit. -/
def Keeps (part part₂ : Reader α) : Prop := ∀ c, Kept (part c) (part₂ c)

/-! ## Numbers -/

namespace Literal

variable {limit limit₂ : Nat}

theorem scanExponent_raised (hle : limit ≤ limit₂) (text : List Char) :
    (∃ used, scanExponent limit text = .error (.exponentOutOfRange, used)) ∨
      scanExponent limit₂ text = scanExponent limit text := by
  unfold scanExponent
  simp only
  split
  · split
    · exact .inr rfl
    · by_cases hout : digitValue (((text.drop 1).drop (scanExponentSign (text.drop 1)).2).takeWhile
          Char.isDigit) > limit
      · exact .inl ⟨_, if_pos hout⟩
      · rw [if_neg hout, if_neg (by omega)]
        exact .inr rfl
  · exact .inr rfl

theorem scan_raised (hle : limit ≤ limit₂) (text : List Char) :
    (∃ used, scan limit text = .error (.exponentOutOfRange, used)) ∨
      scan limit₂ text = scan limit text := by
  unfold scan
  simp only
  split
  · exact .inr rfl
  · next _ whole wholeWidth hwhole =>
      split
      · exact .inr rfl
      · next _ fraction fractionWidth hfraction =>
          rcases scanExponent_raised hle (text.drop
            ((if decide (text.head? = some '-') then 1 else 0) + wholeWidth + fractionWidth)) with
            ⟨used, hout⟩ | hsame
          · rw [hout]
            exact .inl ⟨_, rfl⟩
          · rw [hsame]
            exact .inr rfl

end Literal

variable {options options₂ : ParserOptions}

theorem kept_readNumber (hle : options.maxExponent ≤ options₂.maxExponent) (c : Cursor) :
    Kept (readNumber options c) (readNumber options₂ c) := by
  unfold readNumber
  rcases Literal.scan_raised hle c.rest with ⟨used, h⟩ | h
  · rw [h]
    exact .inl ⟨_, rfl, rfl⟩
  · rw [h]
    exact .refl _

/-! ## Parts between brackets -/

theorem Keeps.member {entry entry₂ : Reader Entry} (h : Keeps entry entry₂) :
    Keeps (readMember entry) (readMember entry₂) := by
  intro c
  unfold readMember
  split
  · exact .refl _
  · next colon _ =>
      rcases h colon with ⟨failure, hfailed, hlimit⟩ | hsame
      · rw [hfailed]
        exact .inl ⟨failure, rfl, hlimit⟩
      · rw [hsame]
        exact .refl _

theorem Keeps.parts {part part₂ : Reader α} (h : Keeps part part₂) (brackets : Brackets)
    (soFar : List α) (c : Cursor) :
    Kept (readParts part brackets soFar c) (readParts part₂ brackets soFar c) := by
  -- what is read first is the same, or there is nothing to show
  have hfirst {c : Cursor} {taken : Taken c α} (htaken : part c = .ok taken) :
      part₂ c = .ok taken := by
    rcases h c with ⟨failure, hfailed, -⟩ | hsame
    · rw [hfailed] at htaken
      cases htaken
    · rw [hsame, htaken]
  fun_induction readParts part brackets soFar c with
  | case1 soFar c failure hfailed =>
      rcases h c with ⟨limited, hlimited, hlimit⟩ | hsame
      · rw [hfailed] at hlimited
        cases hlimited
        exact .inl ⟨failure, rfl, hlimit⟩
      · rw [readParts, hsame, hfailed]
        exact .refl _
  | case2 soFar c taken htaken next hend =>
      rw [readParts, hfirst htaken]
      simp only [next] at hend
      simp only [hend]
      exact .refl _
  | case3 soFar c taken htaken next rest hcomma ih =>
      have hgo : readParts part₂ brackets soFar c = _ := (readParts_of_comma (hfirst htaken)
        ((Cursor.rest_skipLayout _).symm.trans hcomma) soFar).1
      rw [hgo]
      exact ih
  | case4 soFar c taken htaken next rest hclosing hcomma =>
      have hmark : taken.after.skipLayout.rest = brackets.closing :: rest := hclosing
      rw [readParts, hfirst htaken]
      simp only [hmark, if_neg hcomma, if_true]
      exact .refl _
  | case5 soFar c taken htaken next mark rest hrest hcomma hclosing =>
      have hmark : taken.after.skipLayout.rest = mark :: rest := hrest
      rw [readParts, hfirst htaken]
      simp only [hmark, if_neg hcomma, if_neg hclosing]
      exact .refl _

theorem Keeps.bracketed {part part₂ : Reader α} (h : Keeps part part₂) (brackets : Brackets)
    (c : Cursor) : Kept (readBracketed part brackets c) (readBracketed part₂ brackets c) := by
  unfold readBracketed
  simp only
  split
  · exact .refl _
  · rcases h.parts brackets [] c.step.skipLayout with ⟨failure, hfailed, hlimit⟩ | hsame
    · rw [hfailed]
      exact .inl ⟨failure.inside, rfl, hlimit⟩
    · rw [hsame]
      exact .refl _

/-! ## Entries -/

/-- Of two readers of what is inside of a bracket the second is there when the first is, and keeps
what that gives. -/
def KeepsInside (item item₂ : Option (Reader Entry)) : Prop :=
  ∀ entry, item = some entry → ∃ entry₂, item₂ = some entry₂ ∧ Keeps entry entry₂

section Inside

variable {item item₂ : Option (Reader Entry)}

theorem KeepsInside.array (h : KeepsInside item item₂) (c : Cursor) :
    Kept (readArray options item c) (readArray options₂ item₂ c) := by
  unfold readArray
  cases item with
  | none => exact .inl ⟨_, rfl, rfl⟩
  | some entry =>
      obtain ⟨entry₂, rfl, hentry⟩ := h entry rfl
      exact hentry.bracketed .square c

theorem KeepsInside.object (h : KeepsInside item item₂) (c : Cursor) :
    Kept (readObject options item c) (readObject options₂ item₂ c) := by
  unfold readObject
  cases item with
  | none => exact .inl ⟨_, rfl, rfl⟩
  | some entry =>
      obtain ⟨entry₂, rfl, hentry⟩ := h entry rfl
      simp only
      rcases hentry.member.bracketed .curly c with ⟨failure, hfailed, hlimit⟩ | hsame
      · rw [hfailed]
        exact .inl ⟨failure, rfl, hlimit⟩
      · rw [hsame]
        exact .refl _

theorem KeepsInside.objectEntry (h : KeepsInside item item₂) (c : Cursor) :
    Kept (readObjectEntry options item c) (readObjectEntry options₂ item₂ c) := by
  unfold readObjectEntry
  rcases h.object c with ⟨failure, hfailed, hlimit⟩ | hsame
  · rw [hfailed]
    exact .inl ⟨failure, rfl, hlimit⟩
  · rw [hsame]
    exact .refl _

theorem KeepsInside.entryAt (h : KeepsInside item item₂)
    (hle : options.maxExponent ≤ options₂.maxExponent) (c : Cursor) :
    Kept (readEntryAt options item c) (readEntryAt options₂ item₂ c) := by
  unfold readEntryAt
  split
  · exact .refl _
  · split
    · exact h.objectEntry c
    · rcases h.array c with ⟨failure, hfailed, hlimit⟩ | hsame
      · rw [hfailed]
        exact .inl ⟨failure, rfl, hlimit⟩
      · rw [hsame]
        exact .refl _
    · exact .refl _
    · exact .refl _
    · exact .refl _
    · exact .refl _
    · split
      · exact kept_readNumber hle c
      · exact .refl _

theorem KeepsInside.value (h : KeepsInside item item₂)
    (hle : options.maxExponent ≤ options₂.maxExponent) :
    Keeps (readValueWith options item) (readValueWith options₂ item₂) := by
  intro c
  rcases h.entryAt hle c.skipLayout with ⟨failure, hfailed, hlimit⟩ | hsame
  · exact .inl ⟨failure, readValueWith_eq_error hfailed, hlimit⟩
  · -- what is read carries a proof about its reader, so both readers are taken apart
    right
    unfold readValueWith
    split <;> split <;> grind

end Inside

theorem keepsInside_itemReader? (hle : options.maxExponent ≤ options₂.maxExponent)
    {levels levels₂ : Nat} (hlevels : levels ≤ levels₂) :
    KeepsInside (itemReader? options levels) (itemReader? options₂ levels₂) := by
  induction levels generalizing levels₂ with
  | zero => exact nofun
  | succ levels ih =>
      rintro entry ⟨⟩
      obtain ⟨inner, rfl⟩ := Nat.exists_eq_add_of_le' (Nat.le_trans (Nat.succ_pos levels) hlevels)
      refine ⟨_, rfl, ?_⟩
      rw [readValue_eq, readValue_eq]
      exact (ih (Nat.le_of_succ_le_succ hlevels)).value hle

theorem keeps_readValue (hle : options.maxExponent ≤ options₂.maxExponent)
    {levels levels₂ : Nat} (hlevels : levels ≤ levels₂) :
    Keeps (readValue options levels) (readValue options₂ levels₂) := by
  rw [readValue_eq, readValue_eq]
  exact (keepsInside_itemReader? hle hlevels).value hle

/-! ## Calls -/

/-- The second of two calls answers what the first answered, unless that ran into a limit. -/
def SameAnswer (r r₂ : Except Error β) : Prop :=
  (∃ error, r = .error error ∧ error.ofLimit) ∨ r₂ = r

theorem SameAnswer.map {r r₂ : Except Error α} (h : SameAnswer r r₂) (f : α → β) :
    SameAnswer (r.map f) (r₂.map f) := by
  rcases h with ⟨error, rfl, hlimit⟩ | rfl
  · exact .inl ⟨error, rfl, hlimit⟩
  · exact .inr rfl

namespace Parser

variable {p p₂ : Parser}

theorem sameAnswer_finish {r r₂ : Except Failure (α × Cursor)} (h : Kept r r₂) :
    SameAnswer (p.finish r).1 (p₂.finish r₂).1 := by
  rcases h with ⟨failure, rfl, hlimit⟩ | rfl
  · exact .inl ⟨failure.error, rfl, hlimit⟩
  · right
    unfold finish
    split
    · rfl
    · simp only
      split <;> rfl

/-- A parser at the same place, with at least as many levels left and as large exponents allowed. -/
structure Raised (p p₂ : Parser) : Prop where
  cursor : p₂.cursor = p.cursor
  levels : p.levels ≤ p₂.levels
  maxExponent : p.options.maxExponent ≤ p₂.options.maxExponent

theorem Raised.readObject (h : Raised p p₂) : SameAnswer p.readObject.1 p₂.readObject.1 := by
  unfold Parser.readObject
  rw [h.cursor]
  simp only
  split
  · exact sameAnswer_finish ((keepsInside_itemReader? h.maxExponent h.levels).object _)
  · exact .inr rfl

theorem Raised.readArray (h : Raised p p₂) : SameAnswer p.readArray.1 p₂.readArray.1 := by
  unfold Parser.readArray
  rw [h.cursor]
  simp only
  split
  · exact sameAnswer_finish ((keepsInside_itemReader? h.maxExponent h.levels).array _)
  · exact .inr rfl

theorem Raised.readEntry (h : Raised p p₂) : SameAnswer p.readEntry.1 p₂.readEntry.1 := by
  have hvalue := keeps_readValue h.maxExponent h.levels p.cursor
  obtain ⟨options₂, cursor₂, depth₂⟩ := p₂
  obtain rfl : cursor₂ = p.cursor := h.cursor
  refine sameAnswer_finish ?_
  rcases hvalue with ⟨failure, hfailed, hlimit⟩ | hsame
  · rw [hfailed]
    exact .inl ⟨failure, rfl, hlimit⟩
  · rw [hsame]
    right
    cases readValue p.options p.levels p.cursor <;> rfl

theorem Raised.call (h : Raised p p₂) (call : Call) :
    SameAnswer (p.call call).1 (p₂.call call).1 := by
  cases call with
  | object => exact h.readObject.map _
  | array => exact h.readArray.map _
  | entry => exact h.readEntry

theorem raised_ofText (text : String) {options options₂ : ParserOptions}
    (hdepth : options.maxDepth ≤ options₂.maxDepth)
    (hexponent : options.maxExponent ≤ options₂.maxExponent) :
    Raised (ofText text options) (ofText text options₂) :=
  ⟨rfl, hdepth, hexponent⟩

/-- Whatever a fresh parser is asked for: with larger limits it reads the same entry and finds the
same fault, other than an exponent out of range. The depth limit is what it complains of only at an
opening bracket in front of which as many brackets are open, outside of string literals, as the limit
allows, and that limit is in the complaint. -/
theorem limits_only_refuse (text : String) (options options₂ : ParserOptions)
    (hdepth : options.maxDepth ≤ options₂.maxDepth)
    (hexponent : options.maxExponent ≤ options₂.maxExponent) (call : Call) :
    let r := (ofText text options).call call
    let r₂ := (ofText text options₂).call call
    (∀ entry, r.1 = .ok entry → r₂.1 = .ok entry) ∧
    (∀ line column fault, r.1 = .error (.malformed line column fault) →
      fault ≠ .exponentOutOfRange → r₂.1 = .error (.malformed line column fault)) ∧
    ∀ limit, r.1 = .error (.depthLimit limit) →
      limit = options.maxDepth ∧
      ∃ before bracket after, text.toList = before ++ bracket :: after ∧
        r.2.cursor.Behind before ∧ r.2.cursor.rest = bracket :: after ∧
        Whole before ∧ openBehind 0 before = options.maxDepth ∧ bracket ∈ openingBrackets := by
  intro r r₂
  have hsame : SameAnswer r.1 r₂.1 := (raised_ofText text hdepth hexponent).call call
  refine ⟨fun entry hread => ?_, fun line column fault hfault hin => ?_, fun limit hlimit => ?_⟩
  · rcases hsame with ⟨error, herror, -⟩ | hsame
    · rw [hread] at herror
      cases herror
    · rw [hsame, hread]
  · rcases hsame with ⟨error, herror, hlimit⟩ | hsame
    · rw [hfault] at herror
      cases herror
      exact absurd (of_decide_eq_true hlimit) hin
    · rw [hsame, hfault]
  · obtain ⟨failure, hblame, herror, hplace⟩ := exists_blame hlimit
    cases hblame with
    | fault | wrapper => cases herror
    | depth climbs opens opening =>
        cases herror
        obtain ⟨before, htext, hbehind, hwhole, hopen⟩ := climbs.behind
        refine ⟨rfl, before, _, _, opens ▸ htext, ?_⟩
        rw [hplace]
        exact ⟨hbehind, opens, hwhole, hopen, opening⟩

/-- The bracket in the string is not one of the two that are open. -/
theorem limits_only_refuse_quoted :
    let r := (ofText "[\"[\",[[" ⟨2, 1024⟩).call .array
    r.1 = .error (.depthLimit 2) ∧
      ∃ before bracket after, "[\"[\",[[".toList = before ++ bracket :: after ∧
        r.2.cursor.Behind before ∧ r.2.cursor.rest = bracket :: after ∧
        Whole before ∧ openBehind 0 before = 2 ∧ bracket ∈ openingBrackets := by
  have hrefused : ((ofText "[\"[\",[[" ⟨2, 1024⟩).call .array).1 = .error (.depthLimit 2) := by
    with_unfolding_all rfl
  obtain ⟨-, -, hlimit⟩ :=
    limits_only_refuse "[\"[\",[[" ⟨2, 1024⟩ ⟨3, 1024⟩ (by decide) (by decide) .array
  exact ⟨hrefused, (hlimit 2 hrefused).2⟩

end Parser

end ExtendedJson
