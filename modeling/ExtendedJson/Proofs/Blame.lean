import ExtendedJson.Proofs.CursorMoves

/-!
# Where reading gives up

A reader gives up in one of three ways: at an opening bracket that the limit does not allow any more,
at the place that it has got to, where it found a fault of its own, or behind a wrapper whose text
names nothing, which is the fault of the brace that opens it. `Blame` lists the three with what is
known of the places. The lemmas here go through the readers once, from the scans up to entries, and
say of each that it gives up in one of these ways or has closed every bracket that it opened.
-/

namespace ExtendedJson

open Grammar

/-! ## Faults of the scans -/

/-- Whether the reader finds a fault itself, and does not pass on a complaint from elsewhere. -/
def Fault.isOwn : Fault → Bool
  | .reported _ => false
  | _ => true

section Scans

variable {text : List Char} {fault : Fault} {used : Nat}

namespace JsonString

theorem own_scanHex {count value looked : Nat}
    (h : scanHex count value looked text = .error (fault, used)) : fault.isOwn := by
  fun_induction scanHex count value looked text with
  | case1 => cases h
  | case2 | case3 => cases h; rfl
  | case4 _ _ _ _ _ _ _ ih => exact ih h

theorem own_scanUnicode (h : scanUnicode text = .error (fault, used)) : fault.isOwn := by
  unfold scanUnicode at h
  split at h
  · next hfirst => cases h; exact own_scanHex hfirst
  · split at h
    · split at h
      · split at h
        · next hsecond => cases h; exact own_scanHex hsecond
        · split at h <;> cases h
          rfl
      · cases h; rfl
    · split at h <;> cases h
      rfl

theorem own_scanEscape (h : scanEscape text = .error (fault, used)) : fault.isOwn := by
  unfold scanEscape at h
  split at h
  · cases h; rfl
  · split at h
    iterate 8 · cases h
    · split at h
      · next hnamed => cases h; exact own_scanUnicode hnamed
      · cases h
    · cases h; rfl

theorem own_scanFrom {kept : List Char} {looked : Nat}
    (h : scanFrom kept looked text = .error (fault, used)) : fault.isOwn := by
  fun_induction scanFrom kept looked text with
  | case1 | case5 => cases h; rfl
  | case2 => cases h
  | case3 _ _ _ _ _ hescape => cases h; exact own_scanEscape hescape
  | case4 _ _ _ _ _ _ ih | case6 _ _ _ _ _ _ _ ih => exact ih h

end JsonString

namespace Literal

theorem own_scanWhole (h : scanWhole text = .error (fault, used)) : fault.isOwn := by
  unfold scanWhole at h
  split at h
  · cases h
  · split at h <;> cases h
    rfl

theorem own_scanFraction (h : scanFraction text = .error (fault, used)) : fault.isOwn := by
  unfold scanFraction at h
  split at h
  · split at h <;> cases h
    rfl
  · cases h

theorem own_scanExponent {maxExponent : Nat}
    (h : scanExponent maxExponent text = .error (fault, used)) : fault.isOwn := by
  unfold scanExponent at h
  simp only at h
  split at h
  · split at h
    · cases h; rfl
    · split at h <;> cases h
      rfl
  · cases h

theorem own_scan {maxExponent : Nat} (h : scan maxExponent text = .error (fault, used)) :
    fault.isOwn := by
  unfold scan at h
  simp only at h
  split at h
  · next hwhole => cases h; exact own_scanWhole hwhole
  · split at h
    · next hfraction => cases h; exact own_scanFraction hfraction
    · split at h
      · next hexponent => cases h; exact own_scanExponent hexponent
      · cases h

end Literal

end Scans

/-! ## Ways to give up -/

/-- Members that make a wrapper whose text names nothing of its kind, for a reason. -/
def Misspelled (members : List (Placed Quoted × Placed Spelling)) (error : Error) : Prop :=
  ∃ pairs marker kind text, Spelling.memberMeanings? members = some pairs ∧
    Members.merged pairs = [(marker, .string text)] ∧ markers.lookup marker = some kind ∧
    Entry.decodeExtended kind (some text) = .error error

/-- From one place to another stands a misspelled wrapper. -/
def Undecodable (brace after : Cursor) (error : Error) : Prop :=
  ∃ gap members, brace.rest = (Spelling.object gap members).text ++ after.rest ∧
    Misspelled members error

/-- How reading from a place on can fail when some levels of brackets may be opened: for one bracket
too many, for a fault at the place that was reached, or for a wrapper that ends there. -/
inductive Blame (options : ParserOptions) (levels : Nat) (c : Cursor) : Failure → Prop
  | depth {place : Cursor} {bracket : Char} {rest : List Char} (climbs : c.Climbs levels place)
    (opens : place.rest = bracket :: rest) (opening : bracket ∈ openingBrackets) :
    Blame options levels c ⟨.depthLimit options.maxDepth, place, levels⟩
  | fault {place : Cursor} {fault : Fault} {opened : Nat} (leads : c.Leads place)
    (opened_le : opened ≤ levels) (own : fault.isOwn) :
    Blame options levels c ⟨.malformed place.line place.column fault, place, opened⟩
  | wrapper {brace place : Cursor} {error : Error} {opened : Nat} (reaches : c.Leads brace)
    (leads : brace.Leads place) (opened_le : opened ≤ levels)
    (undecodable : Undecodable brace place error) :
    Blame options levels c
      ⟨.malformed brace.line brace.column (.reported error.message), place, opened⟩

variable {α β : Type} {options : ParserOptions} {levels : Nat} {c : Cursor}

namespace Blame

variable {failure : Failure}

theorem leads (h : Blame options levels c failure) : c.Leads failure.place := by
  cases h with
  | depth climbs => exact climbs.leads
  | fault leads => exact leads
  | wrapper reaches leads => exact reaches.trans leads

theorem opened_le (h : Blame options levels c failure) : failure.opened ≤ levels := by
  cases h with
  | depth => exact Nat.le_refl _
  | fault _ opened_le | wrapper _ _ opened_le => exact opened_le

/-- The failure seen from further out, where the brackets on the way have been opened as well. -/
theorem under {before : Cursor} {outer : Nat} (hbefore : before.Climbs outer c)
    (h : Blame options levels c failure) :
    Blame options (levels + outer) before { failure with opened := failure.opened + outer } := by
  cases h with
  | depth climbs opens opening =>
      exact .depth (Nat.add_comm outer levels ▸ hbefore.trans climbs) opens opening
  | fault leads opened_le own =>
      exact .fault (hbefore.leads.trans leads) (Nat.add_le_add_right opened_le outer) own
  | wrapper reaches leads opened_le undecodable =>
      exact .wrapper (hbefore.leads.trans reaches) leads (Nat.add_le_add_right opened_le outer)
        undecodable

theorem malformed {place : Cursor} {fault : Fault} (leads : c.Leads place) (own : fault.isOwn) :
    Blame options levels c (.malformed place fault) :=
  .fault leads (Nat.zero_le _) own

end Blame

/-- What comes of reading from a place on: a failure that can be explained, or something read. -/
def Accounts (options : ParserOptions) (levels : Nat) (c : Cursor) (reached : β → Prop) :
    Except Failure β → Prop
  | .error failure => Blame options levels c failure
  | .ok read => reached read

/-- If something is read, every bracket that was opened is closed behind it. -/
abbrev Balanced (options : ParserOptions) (levels : Nat) (c : Cursor)
    (r : Except Failure (β × Cursor)) : Prop :=
  Accounts options levels c (fun read => c.Climbs 0 read.2) r

section Accounts

variable {reached : β → Prop} {place : β → Cursor} {r : Except Failure β}

theorem Accounts.failed (h : Accounts options levels c reached r) {failure : Failure}
    (hfailed : r = .error failure) : Blame options levels c failure := by
  rwa [hfailed] at h

theorem Accounts.read (h : Accounts options levels c reached r) {read : β} (hread : r = .ok read) :
    reached read := by
  rwa [hread] at h

/-- The same reading, told from a place before it. -/
theorem Accounts.from {before : Cursor}
    (h : Accounts options levels c (fun read => c.Climbs 0 (place read)) r)
    (hbefore : before.Climbs 0 c) :
    Accounts options levels before (fun read => before.Climbs 0 (place read)) r := by
  cases r with
  | error failure => exact h.under hbefore
  | ok read => exact hbefore.trans h

end Accounts

/-! ## Strings, words and numbers -/

theorem follow_eq_error {s : Scan α} {failure : Failure} (h : c.follow s = .error failure) :
    ∃ fault used, s = .error (fault, used) ∧ failure = .malformed (c.skip used) fault := by
  cases s with
  | error scanned => exact ⟨scanned.1, scanned.2, rfl, (Except.error.inj h).symm⟩
  | ok scanned => cases h

theorem leads_of_follow {s : Scan α} {value : α} {after : Cursor}
    (h : c.follow s = .ok (value, after)) : c.Leads after := by
  cases s with
  | error scanned => cases h
  | ok scanned =>
      cases h
      exact c.leads_skip _

theorem balanced_readString (options : ParserOptions) (levels : Nat)
    (hquote : c.rest.head? = some '"') :
    Balanced options levels c (readString c) := by
  cases hread : readString c with
  | error failure =>
      obtain ⟨fault, used, hscan, rfl⟩ := follow_eq_error hread
      exact .malformed (c.leads_step.trans (c.step.leads_skip used)) (JsonString.own_scanFrom hscan)
  | ok read =>
      obtain ⟨q, hrest, -⟩ := readString_sound hquote hread
      exact Cursor.climbs_of_bracketless (bracketless_quoted q)
        (c.leads_step.trans (leads_of_follow hread)) hrest

theorem balanced_readKey (options : ParserOptions) (levels : Nat) (c : Cursor) :
    Balanced options levels c (readKey c) := by
  have hskip := c.climbs_skipLayout
  unfold readKey
  simp only
  split
  · next hquote =>
      have hstring := (balanced_readString options levels hquote).from hskip
      split
      · next hfailed => exact hstring.failed hfailed
      · next after hread =>
          have hcolon := (hstring.read hread).trans after.climbs_skipLayout
          split
          · next hmark =>
              obtain ⟨rest, hrest⟩ := List.head?_eq_some_iff.mp hmark
              exact hcolon.trans (Cursor.climbs_step hrest (by decide))
          · exact .malformed hcolon.leads rfl
  · exact .malformed hskip.leads rfl

theorem balanced_readWord (options : ParserOptions) (levels : Nat) {word : String}
    (hword : ∀ c ∈ word.toList, Plain c) (entry : Entry) (c : Cursor) :
    Balanced options levels c (readWord word entry c) := by
  cases hread : readWord word entry c with
  | error failure =>
      unfold readWord at hread
      split at hread <;> cases hread
      exact .malformed (.refl c) rfl
  | ok read =>
      have hleads : c.Leads read.2 := by
        unfold readWord at hread
        split at hread <;> cases hread
        exact c.leads_skip _
      exact Cursor.climbs_of_bracketless (bracketless_of_plain hword) hleads (readWord_sound hread).1

theorem balanced_readNumber (options : ParserOptions) (levels : Nat) (c : Cursor) :
    Balanced options levels c (readNumber options c) := by
  cases hread : readNumber options c with
  | error failure =>
      unfold readNumber at hread
      split at hread
      · next hfollow =>
          cases hread
          obtain ⟨fault, used, hscan, rfl⟩ := follow_eq_error hfollow
          exact .malformed (c.leads_skip used) (Literal.own_scan hscan)
      · cases hread
  | ok read =>
      obtain ⟨n, hrest, -⟩ := readNumber_sound hread
      unfold readNumber at hread
      split at hread
      · cases hread
      · next hfollow =>
          cases hread
          exact Cursor.climbs_of_bracketless (bracketless_numeral n) (leads_of_follow hfollow) hrest

/-! ## Parts between brackets -/

/-- A reader accounts for what it does from every place. -/
def Accountable (options : ParserOptions) (levels : Nat) (part : Reader α) : Prop :=
  ∀ c, Accounts options levels c (fun taken => c.Climbs 0 taken.after) (part c)

theorem Accountable.member {entry : Reader Entry} (h : Accountable options levels entry) :
    Accountable options levels (readMember entry) := by
  intro c
  have hkey := balanced_readKey options levels c
  unfold readMember
  split
  · next hfailed => exact hkey.failed hfailed
  · next colon hread =>
      have hentry := (h colon).from (hkey.read hread)
      split
      · next hfailed => exact hentry.failed hfailed
      · next htaken => exact hentry.read htaken

/-- Faults and closing bracket are as they should be. -/
structure Brackets.Proper (brackets : Brackets) : Prop where
  closing : brackets.closing ∈ closingBrackets
  noSeparator : brackets.noSeparator.isOwn
  atEnd : brackets.atEnd.isOwn

theorem Brackets.Proper.square : Brackets.square.Proper := ⟨by decide, rfl, rfl⟩

theorem Brackets.Proper.curly : Brackets.curly.Proper := ⟨by decide, rfl, rfl⟩

/-- What was read ends with the closing bracket, which none of the parts has opened. -/
theorem Accountable.parts {part : Reader α} (h : Accountable options levels part)
    {brackets : Brackets} (hproper : brackets.Proper) (soFar : List α) (c : Cursor) :
    Accounts options levels c
      (fun read => ∃ mark : Cursor, c.Climbs 0 mark ∧
        mark.rest.head? = some brackets.closing ∧ read.2 = mark.step)
      (readParts part brackets soFar c) := by
  -- behind each part stands a mark, past the layout
  have hnext {c : Cursor} {taken : Taken c α} (htaken : part c = .ok taken) :
      c.Climbs 0 taken.after.skipLayout :=
    ((h c).read htaken).trans taken.after.climbs_skipLayout
  fun_induction readParts part brackets soFar c with
  | case1 soFar c failure hfailed => exact (h c).failed hfailed
  | case2 soFar c taken htaken => exact .malformed (hnext htaken).leads hproper.atEnd
  | case3 soFar c taken htaken next rest hcomma ih =>
      have hstep := (hnext htaken).trans (Cursor.climbs_step hcomma (by decide))
      cases hread : readParts part brackets (taken.value :: soFar) next.step with
      | error failure => exact (ih.failed hread).under hstep
      | ok read =>
          obtain ⟨mark, hclimbs, hmark⟩ := ih.read hread
          exact ⟨mark, hstep.trans hclimbs, hmark⟩
  | case4 soFar c taken htaken next rest hmark =>
      exact ⟨next, hnext htaken, by rw [hmark]; rfl, rfl⟩
  | case5 soFar c taken htaken next =>
      exact .malformed ((hnext htaken).leads.trans next.leads_step) hproper.noSeparator

/-- What is between brackets is one level further in. -/
theorem Accountable.bracketed {part : Reader α} (h : Accountable options levels part)
    {brackets : Brackets} (hproper : brackets.Proper) {bracket : Char} {rest : List Char}
    (hopens : c.rest = bracket :: rest) (hopening : bracket ∈ openingBrackets) :
    Balanced options (levels + 1) c (readBracketed part brackets c) := by
  have hfirst := (Cursor.climbs_opening hopens hopening).trans c.step.climbs_skipLayout
  have hparts := h.parts hproper [] c.step.skipLayout
  unfold readBracketed
  simp only
  split
  · next hclosing =>
      obtain ⟨behind, hmark⟩ := List.head?_eq_some_iff.mp hclosing
      exact hfirst.closing hmark hproper.closing
  · split
    · next hfailed => exact (hparts.failed hfailed).under hfirst
    · next read hread =>
        obtain ⟨mark, hclimbs, hclosing, hafter⟩ := hparts.read hread
        obtain ⟨behind, hmark⟩ := List.head?_eq_some_iff.mp hclosing
        change c.Climbs 0 read.2
        rw [hafter]
        exact (hfirst.trans hclimbs).closing hmark hproper.closing

/-! ## Entries -/

/-- What is known of the reader one level further in, if there is one. -/
def AccountableInside (options : ParserOptions) (levels : Nat) : Prop :=
  ∀ inner, levels = inner + 1 → Accountable options inner (readValue options inner)

/-- An object that stands for no entry is a wrapper with a text that names nothing. -/
theorem exists_wrapper_of_ofObject {pairs : List (String × Entry)} {error : Error}
    (h : Entry.ofObject ⟨pairs⟩ = .error error) :
    ∃ marker kind text, pairs = [(marker, .string text)] ∧ markers.lookup marker = some kind ∧
      Entry.decodeExtended kind (some text) = .error error := by
  unfold Entry.ofObject at h
  split at h
  · next kind text hwrapper =>
      unfold Object.wrapper? at hwrapper
      split at hwrapper
      · next marker text hpairs =>
          obtain ⟨kind, hkind, heq⟩ := Option.map_eq_some_iff.mp hwrapper
          cases heq
          exact ⟨marker, kind, text, hpairs, ofMarker?_eq_lookup marker ▸ hkind, h⟩
      · next marker hpairs =>
          -- without a text there is nothing that could be wrong with it
          obtain ⟨kind, hkind, heq⟩ := Option.map_eq_some_iff.mp hwrapper
          cases heq
          have habsent := toOption_decodeExtended_none
            (marked_cases (ofMarker?_eq_lookup marker ▸ hkind))
          rw [h] at habsent
          cases habsent
      · cases hwrapper
  · cases h

theorem undecodable_of_ofObject {after : Cursor} {members : Object} {error : Error}
    (hopens : c.rest.head? = some '\x7b')
    (hread : readObject options (itemReader? options levels) c = .ok (members, after))
    (h : Entry.ofObject members = .error error) : Undecodable c after error := by
  obtain ⟨gap, spelled, pairs, hrest, hfits, rfl⟩ :=
    readObject_sound (readsInside options levels) hopens hread
  obtain ⟨marker, kind, text, hpairs, hkind, hdecoded⟩ := exists_wrapper_of_ofObject h
  exact ⟨gap, spelled, hrest, pairs, marker, kind, text, hfits.2.2, hpairs, hkind, hdecoded⟩

namespace AccountableInside

theorem array (h : AccountableInside options levels) (hopens : c.rest.head? = some '[') :
    Balanced options levels c (readArray options (itemReader? options levels) c) := by
  obtain ⟨rest, hrest⟩ := List.head?_eq_some_iff.mp hopens
  cases levels with
  | zero => exact .depth (.refl c) hrest (by decide)
  | succ inner => exact (h inner rfl).bracketed .square hrest (by decide)

theorem object (h : AccountableInside options levels) (hopens : c.rest.head? = some '\x7b') :
    Balanced options levels c (readObject options (itemReader? options levels) c) := by
  obtain ⟨rest, hrest⟩ := List.head?_eq_some_iff.mp hopens
  cases levels with
  | zero => exact .depth (.refl c) hrest (by decide)
  | succ inner =>
      have hmembers := (h inner rfl).member.bracketed .curly hrest (by decide)
      rw [itemReader?, readObject]
      split
      · next hfailed => exact hmembers.failed hfailed
      · next hread => exact hmembers.read hread

theorem objectEntry (h : AccountableInside options levels) (hopens : c.rest.head? = some '\x7b') :
    Balanced options levels c (readObjectEntry options (itemReader? options levels) c) := by
  have hobject := h.object hopens
  unfold readObjectEntry
  split
  · next hfailed => exact hobject.failed hfailed
  · next members after hread =>
      have hclimbs := hobject.read hread
      split
      · next error hundecoded =>
          exact .wrapper (.refl c) hclimbs.leads (Nat.zero_le _)
            (undecodable_of_ofObject hopens hread hundecoded)
      · exact hclimbs

theorem entryAt (h : AccountableInside options levels) (c : Cursor) :
    Balanced options levels c (readEntryAt options (itemReader? options levels) c) := by
  unfold readEntryAt
  split
  · exact .malformed (.refl c) rfl
  · next first rest hrest =>
      split
      · exact h.objectEntry (by rw [hrest]; rfl)
      · have harray := h.array (c := c) (by rw [hrest]; rfl)
        split
        · next hfailed => exact harray.failed hfailed
        · next hread => exact harray.read hread
      · have hstring := balanced_readString options levels (c := c) (by rw [hrest]; rfl)
        split
        · next hfailed => exact hstring.failed hfailed
        · next hread => exact hstring.read hread
      · exact balanced_readWord options levels (by simp [Plain]) _ c
      · exact balanced_readWord options levels (by simp [Plain]) _ c
      · exact balanced_readWord options levels (by simp [Plain]) _ c
      · split
        · exact balanced_readNumber options levels c
        · exact .malformed (.refl c) rfl

theorem value (h : AccountableInside options levels) :
    Accountable options levels (readValue options levels) := by
  intro c
  have hentry := (h.entryAt c.skipLayout).from c.climbs_skipLayout
  rw [readValue_eq]
  unfold readValueWith
  split
  · next hfailed => exact hentry.failed hfailed
  · next hread => exact hentry.read hread

end AccountableInside

theorem accountableInside (options : ParserOptions) (levels : Nat) :
    AccountableInside options levels := by
  induction levels with
  | zero => exact nofun
  | succ levels ih =>
      rintro inner ⟨⟩
      exact ih.value

theorem accountable_readValue (options : ParserOptions) (levels : Nat) :
    Accountable options levels (readValue options levels) := (accountableInside options levels).value

end ExtendedJson
