import ExtendedJson.Document
import ExtendedJson.Proofs.Grammar.Parts
import ExtendedJson.Proofs.Grammar.Strings

/-!
# The reader is the grammar's

`Fits` is what the limits leave of the grammar: the spellings with no more brackets inside one
another than there are levels and no exponent over the limit. The reader of entries reads those and
no others. That is an induction on the levels, because the part that `readEntryAt` hands to the loop
is the reader at one level less. Whole documents follow, an entry with nothing but blanks behind.
-/

namespace ExtendedJson

open Grammar

/-! ## What an object stands for -/

namespace Grammar

theorem ofMarker?_eq_lookup (key : String) : Entry.Kind.ofMarker? key = markers.lookup key := by
  have hswap (marker : String) : ((some marker : Option String) == some key) = (key == marker) := by
    simp [beq_eq_decide, eq_comm]
  simp only [Entry.Kind.ofMarker?, markers, List.lookup_cons, List.lookup_nil, List.find?,
    Entry.Kind.marker?, hswap]

theorem marked_cases {key : String} {kind : Entry.Kind} (h : markers.lookup key = some kind) :
    kind = .binary ∨ kind = .date ∨ kind = .time ∨ kind = .timestamp := by
  rw [← ofMarker?_eq_lookup] at h
  simpa using List.mem_of_find?_eq_some h

theorem toOption_decodeExtended_none {kind : Entry.Kind}
    (h : kind = .binary ∨ kind = .date ∨ kind = .time ∨ kind = .timestamp) :
    (Entry.decodeExtended kind none).toOption = some (absent kind) := by
  rcases h with rfl | rfl | rfl | rfl <;> rfl

theorem kind_of_decodePayload {kind : Entry.Kind} {text : String} {payload : Payload}
    (h : Entry.decodePayload kind text = .ok payload) : payload.kind = kind := by
  unfold Entry.decodePayload at h
  split at h
  · split at h
    · injection h with h
      rw [← h]
      rfl
    · simp at h
  · split at h
    · injection h with h
      rw [← h]
      rfl
    · simp at h
  · split at h
    · injection h with h
      rw [← h]
      rfl
    · simp at h
  · split at h
    · injection h with h
      rw [← h]
      rfl
    · simp at h
  · simp at h

theorem toOption_decodeExtended_some (kind : Entry.Kind) (text : String) :
    (Entry.decodeExtended kind (some text)).toOption =
      (Entry.decodePayload kind text).toOption.map Payload.toEntry := by
  unfold Entry.decodeExtended
  simp only
  cases h : Entry.decodePayload kind text with
  | error _ => rfl
  | ok payload =>
      simp only [Entry.withKind]
      rw [if_pos (kind_of_decodePayload h)]
      rfl

/-- The grammar and the reader agree about which objects are wrappers, and of what. -/
theorem toOption_ofObject (members : List (String × Entry)) :
    (Entry.ofObject ⟨members⟩).toOption = standsFor? members := by
  unfold standsFor?
  split
  · next key text =>
      simp only [Entry.ofObject, Object.wrapper?, ofMarker?_eq_lookup]
      cases markers.lookup key with
      | none => rfl
      | some kind => exact toOption_decodeExtended_some kind text
  · next key =>
      simp only [Entry.ofObject, Object.wrapper?, ofMarker?_eq_lookup]
      cases hkind : markers.lookup key with
      | none => rfl
      | some kind => exact toOption_decodeExtended_none (marked_cases hkind)
  · next hstring hnull =>
      have hplain : Object.wrapper? ⟨members⟩ = none := by
        unfold Object.wrapper?
        split
        · next key text h => exact absurd h (hstring key text)
        · next key h => exact absurd h (hnull key)
        · rfl
      rw [Entry.ofObject, hplain]
      rfl

theorem ofObject_eq_ok_iff {members : List (String × Entry)} {e : Entry} :
    Entry.ofObject ⟨members⟩ = .ok e ↔ standsFor? members = some e := by
  rw [← toOption_ofObject]
  cases Entry.ofObject ⟨members⟩ <;> simp [Except.toOption]

end Grammar

/-! ## Strings, words and numbers -/

theorem Grammar.drop_body (q : Quoted) (rest : List Char) :
    (q.body ++ '"' :: rest).drop (q.body.length + 1) = rest := by
  rw [← List.drop_drop, List.drop_left, List.drop_one, List.tail_cons]

theorem readString_sound {c after : Cursor} {content : List Char}
    (hquote : c.rest.head? = some '"') (h : readString c = .ok (content, after)) :
    ∃ q : Quoted, c.rest = q.text ++ after.rest ∧ q.content = content := by
  obtain ⟨tail, htail⟩ := List.head?_eq_some_iff.mp hquote
  have hstep : c.step.rest = tail := by rw [Cursor.rest_step, htail, List.drop_one, List.tail_cons]
  unfold readString Cursor.follow at h
  rw [hstep] at h
  split at h
  · simp at h
  · next scanned used hscan =>
      obtain ⟨q, rest, hrest, hcontent, hused⟩ := JsonString.scanBody_sound hscan
      injection h with h
      injection h with hscanned hafter
      refine ⟨q, ?_, by rw [hcontent, hscanned]⟩
      rw [htail, ← hafter, Cursor.rest_skip, hstep, hused, hrest, drop_body, Quoted.text]
      simp

theorem readString_complete (q : Quoted) {c : Cursor} {rest : List Char}
    (hc : c.rest = q.text ++ rest) :
    ∃ after, readString c = .ok (q.content, after) ∧ after.rest = rest := by
  have hstep : c.step.rest = q.body ++ '"' :: rest := by
    rw [Cursor.rest_step, hc, Quoted.text]
    simp
  rw [readString, hstep, JsonString.scanBody_body, Cursor.follow]
  exact ⟨_, rfl, by rw [Cursor.rest_skip, hstep, drop_body]⟩

theorem readWord_sound {word : String} {entry read : Entry} {c after : Cursor}
    (h : readWord word entry c = .ok (read, after)) :
    c.rest = word.toList ++ after.rest ∧ read = entry := by
  unfold readWord at h
  split at h
  · next hword =>
      obtain ⟨rest, hrest⟩ := List.isPrefixOf_iff_prefix.mp hword
      injection h with h
      injection h with hentry hafter
      rw [← hafter, Cursor.rest_skip, ← hrest, List.drop_left]
      exact ⟨rfl, hentry.symm⟩
  · simp at h

theorem readWord_complete (word : String) (entry : Entry) {c : Cursor} {rest : List Char}
    (hc : c.rest = word.toList ++ rest) :
    ∃ after, readWord word entry c = .ok (entry, after) ∧ after.rest = rest := by
  rw [readWord, if_pos (List.isPrefixOf_iff_prefix.mpr ⟨rest, hc.symm⟩)]
  exact ⟨_, rfl, by rw [Cursor.rest_skip, hc, List.drop_left]⟩

theorem readNumber_sound {options : ParserOptions} {read : Entry} {c after : Cursor}
    (h : readNumber options c = .ok (read, after)) :
    ∃ n : Numeral, c.rest = n.text ++ after.rest ∧ read = .number n.value ∧
      n.magnitude ≤ options.maxExponent := by
  unfold readNumber Cursor.follow at h
  cases hscan : Literal.scan options.maxExponent c.rest with
  | error fault => simp [hscan] at h
  | ok scanned =>
      obtain ⟨literal, used⟩ := scanned
      obtain ⟨n, rest, hrest, hliteral, hused, hsize⟩ := Literal.scan_sound hscan
      simp only [hscan] at h
      injection h with h
      injection h with hread hafter
      refine ⟨n, ?_, by rw [← hread, ← hliteral, Numeral.value_literal], hsize⟩
      rw [← hafter, Cursor.rest_skip, hused, hrest, List.drop_left]

theorem readNumber_complete {options : ParserOptions} (n : Numeral)
    (hsize : n.magnitude ≤ options.maxExponent) {c : Cursor} {rest : List Char} (h : Ended rest)
    (hc : c.rest = n.text ++ rest) :
    ∃ after, readNumber options c = .ok (.number n.value, after) ∧ after.rest = rest := by
  rw [readNumber, hc, Literal.scan_text n hsize h]
  refine ⟨c.skip n.text.length, ?_, by rw [Cursor.rest_skip, hc, List.drop_left]⟩
  rw [Cursor.follow, ← Numeral.value_literal]

/-! ## Keys and members -/

theorem readKey_sound {c after : Cursor} {key : String} (h : readKey c = .ok (key, after)) :
    ∃ k : Placed Quoted, c.rest = k.textBy Quoted.text ++ ':' :: after.rest ∧
      String.ofList k.item.content = key := by
  obtain ⟨before, hbefore⟩ := exists_gap c.rest
  rw [← Cursor.rest_skipLayout] at hbefore
  unfold readKey at h
  simp only at h
  split at h
  · next hquote =>
      split at h
      · simp at h
      · next content between hstring =>
          obtain ⟨q, hq, hcontent⟩ := readString_sound hquote hstring
          obtain ⟨behind, hbehind⟩ := exists_gap between.rest
          rw [← Cursor.rest_skipLayout] at hbehind
          split at h
          · next hcolon =>
              obtain ⟨tail, htail⟩ := List.head?_eq_some_iff.mp hcolon
              injection h with h
              injection h with hkey hafter
              refine ⟨⟨before, q, behind⟩, ?_, by rw [← hkey, ← hcontent]⟩
              rw [hbefore, hq, hbehind, ← hafter, Cursor.rest_step, htail, Placed.textBy]
              simp
          · simp at h
  · simp at h

theorem readKey_complete (k : Placed Quoted) {c : Cursor} {rest : List Char}
    (hc : afterBlanks c.rest = afterBlanks (k.textBy Quoted.text ++ ':' :: rest)) :
    ∃ after, readKey c = .ok (String.ofList k.item.content, after) ∧ after.rest = rest := by
  have hquote : c.skipLayout.rest = k.item.text ++ (k.after.text ++ ':' :: rest) := by
    rw [Cursor.rest_skipLayout, hc, Placed.textBy, List.append_assoc, afterBlanks_gap,
      List.append_assoc]
    exact afterBlanks_cons rfl _
  obtain ⟨between, hbetween, hbehind⟩ := readString_complete k.item hquote
  have hcolon : between.skipLayout.rest = ':' :: rest := by
    rw [Cursor.rest_skipLayout, hbehind, afterBlanks_gap]
    exact afterBlanks_cons rfl _
  rw [readKey]
  simp only
  rw [if_pos (by rw [hquote]; rfl), hbetween]
  simp only
  rw [if_pos (by rw [hcolon]; rfl)]
  refine ⟨_, rfl, ?_⟩
  rw [Cursor.rest_step, hcolon]
  rfl

/-! ## Entries -/

section Entries

variable {options : ParserOptions} {levels : Nat}

/-- A spelling within the limits, and the entry that it means. -/
def Fits (options : ParserOptions) (levels : Nat) (s : Spelling) (entry : Entry) : Prop :=
  s.depth ≤ levels ∧ s.ExponentsWithin options.maxExponent ∧ s.meaning? = some entry

/-- A member within the limits, and the pair that it means. -/
def FitsMember (options : ParserOptions) (levels : Nat) (m : Placed Quoted × Placed Spelling)
    (pair : String × Entry) : Prop :=
  m.2.item.depth ≤ levels ∧ m.2.item.ExponentsWithin options.maxExponent ∧
    String.ofList m.1.item.content = pair.1 ∧ m.2.item.meaning? = some pair.2

theorem fits_array_iff {gap : Gap} {items : List (Placed Spelling)} {entries : List Entry} :
    Fits options (levels + 1) (.array gap items) (.array entries) ↔
      List.Forall₂ (fun p => Fits options levels p.item) items entries := by
  have hmeaning : (Spelling.array gap items).meaning? = some (.array entries) ↔
      Spelling.itemMeanings? items = some entries := by
    rw [Spelling.meaning?]
    cases Spelling.itemMeanings? items <;> simp
  rw [Fits, hmeaning, Spelling.itemMeanings?_eq_some_iff, Spelling.exponentsWithin_array_iff,
    Spelling.depth, Nat.add_le_add_iff_right, Spelling.depthItems_le_iff]
  unfold Fits
  rw [List.forall₂_and_left, List.forall₂_and_left]

/-- An array spells an array. -/
theorem Fits.exists_items {gap : Gap} {items : List (Placed Spelling)} {entry : Entry}
    (h : Fits options levels (.array gap items) entry) : ∃ entries, entry = .array entries := by
  have hmeaning := h.2.2
  rw [Spelling.meaning?] at hmeaning
  split at hmeaning
  · simp at hmeaning
  · next entries _ => exact ⟨entries, (Option.some.inj hmeaning).symm⟩

theorem forall₂_fitsMember_iff {gap : Gap} {members : List (Placed Quoted × Placed Spelling)}
    {pairs : List (String × Entry)} :
    List.Forall₂ (FitsMember options levels) members pairs ↔
      (Spelling.object gap members).depth ≤ levels + 1 ∧
        (Spelling.object gap members).ExponentsWithin options.maxExponent ∧
        Spelling.memberMeanings? members = some pairs := by
  rw [Spelling.memberMeanings?_eq_some_iff, Spelling.exponentsWithin_object_iff, Spelling.depth,
    Nat.add_le_add_iff_right, Spelling.depthMembers_le_iff]
  unfold FitsMember
  rw [List.forall₂_and_left, List.forall₂_and_left]

/-- A reader of entries that takes the spellings within the limits and no others. -/
abbrev ReadsEntries (options : ParserOptions) (levels : Nat) (entry : Reader Entry) : Prop :=
  Reads entry (Placed.textBy Spelling.text) fun p => Fits options levels p.item

theorem reads_member {entry : Reader Entry} (h : ReadsEntries options levels entry) :
    Reads (readMember entry) Spelling.memberText (FitsMember options levels) where
  sound := by
    intro c t ht
    unfold readMember at ht
    split at ht
    · simp at ht
    · next key colon hkey =>
        obtain ⟨k, hk, hname⟩ := readKey_sound hkey
        split at ht
        · simp at ht
        · next taken htaken =>
            obtain ⟨p, hp, hdepth, hexponents, hmeaning⟩ := h.sound htaken
            injection ht with ht
            refine ⟨(k, p), ?_, ?_⟩
            · rw [hk, hp, ← ht, Spelling.memberText]
              simp
            · rw [← ht]
              exact ⟨hdepth, hexponents, hname, hmeaning⟩
  complete := by
    intro c ⟨k, p⟩ ⟨name, value⟩ rest ⟨hdepth, hexponents, hname, hmeaning⟩ hstop hc
    rw [Spelling.memberText, List.append_assoc, List.cons_append] at hc
    obtain ⟨colon, hkey, hcolon⟩ := readKey_complete k hc
    obtain ⟨t, ht, hvalue, hrest⟩ := h.complete (c := colon) (y := p) (a := value)
      ⟨hdepth, hexponents, hmeaning⟩ hstop (by rw [hcolon])
    unfold readMember
    split
    · next hfailed => simp [hkey] at hfailed
    · next key colon' hread =>
        rw [hkey] at hread
        injection hread with hread
        injection hread with hname' hcolon'
        subst hcolon'
        rw [ht]
        exact ⟨_, rfl, Prod.ext (hname'.symm.trans hname) hvalue, hrest⟩

theorem rejects_member (entry : Reader Entry) : Rejects (readMember entry) '\x7d' := by
  intro c t hhead ht
  unfold readMember at ht
  split at ht
  · simp at ht
  · next hkey =>
      unfold readKey at hkey
      simp only [Cursor.rest_skipLayout, hhead] at hkey
      simp at hkey

theorem readEntryAt_closing {item : Option (Reader Entry)} {c : Cursor} {rest : List Char}
    (h : c.rest = ']' :: rest) : readEntryAt options item c = .error (.malformed c .noValue) := by
  rw [readEntryAt, h]
  rfl

theorem rejects_value (item : Option (Reader Entry)) :
    Rejects (readValueWith options item) ']' := by
  intro c t hhead ht
  rw [← Cursor.rest_skipLayout] at hhead
  obtain ⟨tail, htail⟩ := List.head?_eq_some_iff.mp hhead
  unfold readValueWith at ht
  split at ht
  · simp at ht
  · next hread => simp [readEntryAt_closing htail] at hread

/-- Where no entry is read, none is read behind blanks. -/
theorem readValueWith_eq_error {item : Option (Reader Entry)} {c : Cursor} {failure : Failure}
    (h : readEntryAt options item c.skipLayout = .error failure) :
    readValueWith options item c = .error failure := by
  unfold readValueWith
  split
  · next hread =>
      rw [h] at hread
      exact congrArg _ (Except.error.inj hread).symm
  · next hread => simp [h] at hread

theorem readValue_eq (options : ParserOptions) (levels : Nat) :
    readValue options levels = readValueWith options (itemReader? options levels) := by
  cases levels <;> rfl

/-- What is known of the reader one level further in, if there is one. -/
def ReadsInside (options : ParserOptions) (levels : Nat) : Prop :=
  ∀ inner, levels = inner + 1 → ReadsEntries options inner (readValue options inner)

theorem readArray_sound (hinside : ReadsInside options levels) {c after : Cursor}
    {items : List Entry} (hopen : c.rest.head? = some '[')
    (h : readArray options (itemReader? options levels) c = .ok (items, after)) :
    ∃ gap placed, c.rest = (Spelling.array gap placed).text ++ after.rest ∧
      Fits options levels (.array gap placed) (.array items) := by
  obtain ⟨tail, htail⟩ := List.head?_eq_some_iff.mp hopen
  cases levels with
  | zero => simp [readArray, itemReader?] at h
  | succ inner =>
      rw [itemReader?, readArray] at h
      obtain ⟨gap, placed, hrest, hmeans⟩ := readBracketed_sound (hinside inner rfl) h
      rw [Cursor.rest_step, htail, List.drop_one, List.tail_cons] at hrest
      refine ⟨gap, placed, ?_, fits_array_iff.mpr hmeans⟩
      rw [htail, hrest, Spelling.text, Spelling.itemTexts_eq_map]
      simp [Brackets.square]

theorem readArray_complete (hinside : ReadsInside options levels) {gap : Gap}
    {placed : List (Placed Spelling)} {items : List Entry}
    (hfits : Fits options levels (.array gap placed) (.array items)) {c : Cursor}
    {rest : List Char} (hc : c.rest = (Spelling.array gap placed).text ++ rest) :
    ∃ after, readArray options (itemReader? options levels) c = .ok (items, after) ∧
      after.rest = rest := by
  cases levels with
  | zero => exact absurd hfits.1 (by simp [Spelling.depth])
  | succ inner =>
      rw [itemReader?, readArray]
      refine readBracketed_complete (hinside inner rfl) .square ?_ (Or.inl rfl) gap
        (fits_array_iff.mp hfits) ?_
      · rw [readValue_eq]
        exact rejects_value _
      · rw [Cursor.rest_step, hc, Spelling.text, Spelling.itemTexts_eq_map]
        simp [Brackets.square]

/-- The spelling of an object within the limits, and the pairs that its members mean. -/
def FitsObject (options : ParserOptions) (levels : Nat) (gap : Gap)
    (members : List (Placed Quoted × Placed Spelling)) (pairs : List (String × Entry)) : Prop :=
  (Spelling.object gap members).depth ≤ levels ∧
    (Spelling.object gap members).ExponentsWithin options.maxExponent ∧
    Spelling.memberMeanings? members = some pairs

theorem fits_object_iff {gap : Gap} {members : List (Placed Quoted × Placed Spelling)}
    {entry : Entry} : Fits options levels (.object gap members) entry ↔
      ∃ pairs, FitsObject options levels gap members pairs ∧
        standsFor? (Members.merged pairs) = some entry := by
  unfold Fits FitsObject
  rw [Spelling.meaning?]
  cases Spelling.memberMeanings? members with
  | none => simp
  | some pairs => simp [and_assoc]

theorem readObject_sound (hinside : ReadsInside options levels) {c after : Cursor}
    {object : Object} (hopen : c.rest.head? = some '\x7b')
    (h : readObject options (itemReader? options levels) c = .ok (object, after)) :
    ∃ gap members pairs, c.rest = (Spelling.object gap members).text ++ after.rest ∧
      FitsObject options levels gap members pairs ∧ object = ⟨Members.merged pairs⟩ := by
  obtain ⟨tail, htail⟩ := List.head?_eq_some_iff.mp hopen
  cases levels with
  | zero => simp [readObject, itemReader?] at h
  | succ inner =>
      rw [itemReader?, readObject] at h
      split at h
      · simp at h
      · next pairs after' hread =>
          injection h with h
          injection h with hobject hafter
          obtain ⟨gap, members, hrest, hmeans⟩ :=
            readBracketed_sound (reads_member (hinside inner rfl)) hread
          rw [Cursor.rest_step, htail, List.drop_one, List.tail_cons] at hrest
          refine ⟨gap, members, pairs, ?_, forall₂_fitsMember_iff.mp hmeans, ?_⟩
          · rw [htail, hrest, ← hafter, Spelling.text, Spelling.memberTexts_eq_map]
            simp [Brackets.curly]
          · rw [← hobject, ← Members.pairs_ofPairs]

theorem readObject_complete (hinside : ReadsInside options levels) {gap : Gap}
    {members : List (Placed Quoted × Placed Spelling)} {pairs : List (String × Entry)}
    (hfits : FitsObject options levels gap members pairs) {c : Cursor}
    {rest : List Char} (hc : c.rest = (Spelling.object gap members).text ++ rest) :
    ∃ after, readObject options (itemReader? options levels) c =
      .ok (⟨Members.merged pairs⟩, after) ∧ after.rest = rest := by
  cases levels with
  | zero => exact absurd hfits.1 (by simp [Spelling.depth])
  | succ inner =>
      have hinner : c.step.rest = gap.text ++
          (listed (members.map Spelling.memberText) ++ Brackets.curly.closing :: rest) := by
        rw [Cursor.rest_step, hc, Spelling.text, Spelling.memberTexts_eq_map]
        simp [Brackets.curly]
      obtain ⟨after, hread, hafter⟩ := readBracketed_complete
        (reads_member (hinside inner rfl)) .curly (rejects_member _) (Or.inr rfl) gap
        (forall₂_fitsMember_iff.mpr hfits) hinner
      refine ⟨after, ?_, hafter⟩
      rw [itemReader?, readObject]
      simp only [hread]
      rw [← Members.pairs_ofPairs]

theorem fits_null (options : ParserOptions) (levels : Nat) : Fits options levels .null .null :=
  ⟨Nat.zero_le _, by simp [Spelling.ExponentsWithin, Spelling.numerals], rfl⟩

theorem fits_boolean (options : ParserOptions) (levels : Nat) (value : Bool) :
    Fits options levels (.boolean value) (.boolean value) :=
  ⟨Nat.zero_le _, by simp [Spelling.ExponentsWithin, Spelling.numerals], rfl⟩

theorem fits_string (options : ParserOptions) (levels : Nat) (q : Quoted) :
    Fits options levels (.string q) (.string (String.ofList q.content)) :=
  ⟨Nat.zero_le _, by simp [Spelling.ExponentsWithin, Spelling.numerals], rfl⟩

theorem fits_number_iff {n : Numeral} {entry : Entry} :
    Fits options levels (.number n) entry ↔
      n.magnitude ≤ options.maxExponent ∧ entry = .number n.value := by
  simp [Fits, Spelling.ExponentsWithin, Spelling.numerals, Spelling.depth, Spelling.meaning?,
    eq_comm]

/-- What is read is an entry within the limits, one case for each way an entry can begin. -/
theorem readEntryAt_sound (hinside : ReadsInside options levels) {c after : Cursor} {entry : Entry}
    (h : readEntryAt options (itemReader? options levels) c = .ok (entry, after)) :
    ∃ s : Spelling, c.rest = s.text ++ after.rest ∧ Fits options levels s entry := by
  unfold readEntryAt at h
  split at h
  · simp at h
  · next first tail hc =>
      have hfirst : c.rest.head? = some first := by rw [hc]; rfl
      split at h
      · unfold readObjectEntry at h
        split at h
        · simp at h
        · next members after' hread =>
            obtain ⟨gap, placed, pairs, hrest, hfits, hmembers⟩ :=
              readObject_sound hinside hfirst hread
            split at h
            · simp at h
            · next read hread =>
                injection h with h
                injection h with hentry hafter
                refine ⟨_, by rw [hrest, hafter], fits_object_iff.mpr ⟨pairs, hfits, ?_⟩⟩
                rw [← ofObject_eq_ok_iff, ← hmembers, hread, hentry]
      · split at h
        · simp at h
        · next items after' hread =>
            obtain ⟨gap, placed, hrest, hfits⟩ := readArray_sound hinside hfirst hread
            injection h with h
            injection h with hentry hafter
            exact ⟨_, by rw [hrest, hafter], hentry ▸ hfits⟩
      · split at h
        · simp at h
        · next content after' hread =>
            obtain ⟨q, hrest, hcontent⟩ := readString_sound hfirst hread
            injection h with h
            injection h with hentry hafter
            refine ⟨.string q, by rw [hrest, hafter]; rfl, ?_⟩
            rw [← hentry, ← hcontent]
            exact fits_string options levels q
      · obtain ⟨hrest, rfl⟩ := readWord_sound h
        exact ⟨.boolean true, hrest, fits_boolean options levels true⟩
      · obtain ⟨hrest, rfl⟩ := readWord_sound h
        exact ⟨.boolean false, hrest, fits_boolean options levels false⟩
      · obtain ⟨hrest, rfl⟩ := readWord_sound h
        exact ⟨.null, hrest, fits_null options levels⟩
      · split at h
        · obtain ⟨n, hrest, hentry, hsize⟩ := readNumber_sound h
          exact ⟨.number n, hrest, fits_number_iff.mpr ⟨hsize, hentry⟩⟩
        · simp at h

/-- A number is told from any other entry by its first character. -/
theorem Grammar.Numeral.exists_cons (n : Numeral) :
    ∃ first tail, n.text = first :: tail ∧ (first = '-' ∨ first.isDigit) := by
  obtain ⟨digit, tail, hwhole, hdigit⟩ := n.whole.exists_cons
  rw [Numeral.text, Numeral.signText, hwhole]
  cases n.negative with
  | true => exact ⟨'-', _, rfl, Or.inl rfl⟩
  | false => exact ⟨digit, _, rfl, Or.inr hdigit⟩

theorem Grammar.isLayout_of_numeral {first : Char} (h : first = '-' ∨ first.isDigit) :
    Text.isLayout first = false := by
  rw [← Bool.not_eq_true, isLayout_iff]
  rintro (rfl | rfl | rfl | rfl) <;> exact absurd h (by decide)

theorem readEntryAt_number {item : Option (Reader Entry)} {c : Cursor} {first : Char}
    {tail : List Char} (hc : c.rest = first :: tail) (h : first = '-' ∨ first.isDigit) :
    readEntryAt options item c = readNumber options c := by
  rw [readEntryAt, hc]
  simp only
  split
  case h_7 => rw [if_pos h]
  all_goals
    rcases h with h | h
    · exact absurd h (by decide)
    · exact absurd h (by decide)

/-- Every entry within the limits is read, and nothing behind it. -/
theorem readEntryAt_complete (hinside : ReadsInside options levels) {s : Spelling} {entry : Entry}
    (hfits : Fits options levels s entry) {c : Cursor} {rest : List Char} (hended : Ended rest)
    (hc : c.rest = s.text ++ rest) :
    ∃ after, readEntryAt options (itemReader? options levels) c = .ok (entry, after) ∧
      after.rest = rest := by
  cases s with
  | null =>
      have hentry : entry = .null := (Option.some.inj hfits.2.2).symm
      rw [readEntryAt, hc, hentry]
      exact readWord_complete "null" .null hc
  | boolean value =>
      have hentry : entry = .boolean value := (Option.some.inj hfits.2.2).symm
      rw [readEntryAt, hc, hentry]
      cases value with
      | true => exact readWord_complete "true" (.boolean true) hc
      | false => exact readWord_complete "false" (.boolean false) hc
  | number n =>
      obtain ⟨hsize, hentry⟩ := fits_number_iff.mp hfits
      obtain ⟨first, tail, htext, hfirst⟩ := n.exists_cons
      have hcons : c.rest = first :: (tail ++ rest) := by
        rw [hc, Spelling.text, htext, List.cons_append]
      rw [readEntryAt_number hcons hfirst, hentry]
      exact readNumber_complete n hsize hended hc
  | string q =>
      have hentry : entry = .string (String.ofList q.content) := (Option.some.inj hfits.2.2).symm
      obtain ⟨after, hread, hafter⟩ := readString_complete q hc
      rw [readEntryAt, hc]
      refine ⟨after, ?_, hafter⟩
      simp only [Spelling.text, Quoted.text, List.cons_append, hread, hentry]
  | array gap items =>
      obtain ⟨entries, hentries⟩ := hfits.exists_items
      rw [hentries] at hfits
      obtain ⟨after, hread, hafter⟩ := readArray_complete hinside hfits hc
      rw [readEntryAt, hc]
      refine ⟨after, ?_, hafter⟩
      simp only [Spelling.text, List.cons_append, hread, hentries]
  | object gap members =>
      obtain ⟨pairs, hpairs, hentry⟩ := fits_object_iff.mp hfits
      obtain ⟨after, hread, hafter⟩ := readObject_complete hinside hpairs hc
      rw [← ofObject_eq_ok_iff] at hentry
      rw [readEntryAt, hc]
      refine ⟨after, ?_, hafter⟩
      simp only [Spelling.text, List.cons_append, readObjectEntry, hread, hentry]

/-- A spelling begins with neither a blank nor a closing bracket. -/
theorem Grammar.Spelling.exists_cons (s : Spelling) :
    ∃ first tail, s.text = first :: tail ∧ Text.isLayout first = false ∧ first ≠ ']' := by
  cases s with
  | null => exact ⟨'n', _, rfl, rfl, by decide⟩
  | boolean value => cases value <;> exact ⟨_, _, rfl, rfl, by decide⟩
  | number n =>
      obtain ⟨first, tail, htext, hfirst⟩ := n.exists_cons
      refine ⟨first, tail, by rw [Spelling.text, htext], isLayout_of_numeral hfirst, ?_⟩
      rintro rfl
      exact absurd hfirst (by decide)
  | string q => exact ⟨'"', _, rfl, rfl, by decide⟩
  | array gap items => exact ⟨'[', _, rfl, rfl, by decide⟩
  | object gap members => exact ⟨'\x7b', _, rfl, rfl, by decide⟩

theorem Grammar.afterBlanks_spelling (s : Spelling) (rest : List Char) :
    afterBlanks (s.text ++ rest) = s.text ++ rest := by
  obtain ⟨first, tail, htext, hblank, -⟩ := s.exists_cons
  rw [htext]
  exact afterBlanks_cons hblank _

theorem reads_valueWith (hinside : ReadsInside options levels) :
    ReadsEntries options levels (readValueWith options (itemReader? options levels)) where
  sound := by
    intro c t ht
    unfold readValueWith at ht
    split at ht
    · simp at ht
    · next entry after hread =>
        obtain ⟨s, hrest, hfits⟩ := readEntryAt_sound hinside hread
        obtain ⟨before, hbefore⟩ := exists_gap c.rest
        obtain ⟨behind, hbehind⟩ := exists_gap after.rest
        injection ht with ht
        rw [← ht]
        refine ⟨⟨before, s, behind⟩, ?_, hfits⟩
        rw [← Cursor.rest_skipLayout] at hbefore
        rw [hbefore, hrest, Placed.textBy, List.append_assoc, List.append_assoc, ← hbehind]
  complete := by
    intro c ⟨before, s, behind⟩ entry rest hfits hstop hc
    have hskip : c.skipLayout.rest = s.text ++ (behind.text ++ rest) := by
      rw [Cursor.rest_skipLayout, hc, Placed.textBy, List.append_assoc, afterBlanks_gap,
        List.append_assoc, afterBlanks_spelling]
    obtain ⟨after, hread, hafter⟩ :=
      readEntryAt_complete hinside hfits (hstop.ended behind) hskip
    unfold readValueWith
    split
    · next hfailed => simp [hread] at hfailed
    · next entry' after' hread' =>
        rw [hread] at hread'
        injection hread' with hread'
        injection hread' with hentry hafter'
        have hrest : after'.rest = behind.text ++ rest := by rw [← hafter', hafter]
        refine ⟨_, rfl, hentry.symm, ?_⟩
        calc afterBlanks after'.rest = afterBlanks rest := by rw [hrest, afterBlanks_gap]
          _ = rest := hstop.afterBlanks

/-- The reader of entries takes just the entries within its limits. -/
theorem reads_value (options : ParserOptions) (levels : Nat) :
    ReadsEntries options levels (readValue options levels) := by
  induction levels with
  | zero =>
      rw [readValue_eq]
      exact reads_valueWith fun inner h => by simp at h
  | succ levels ih =>
      rw [readValue_eq]
      refine reads_valueWith fun inner h => ?_
      rw [← Nat.succ.inj h]
      exact ih

theorem readsInside (options : ParserOptions) (levels : Nat) : ReadsInside options levels :=
  fun inner _ => reads_value options inner

end Entries

end ExtendedJson
