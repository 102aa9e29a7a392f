import ExtendedJson.Proofs.Grammar.Unspelled

/-!
# Documents that are refused

The grammar says of a text whether some spelling of it fits the limits. Here it is said of one
spelling: when it does not fit, its text is refused, so that no other spelling of the text can make
up for it. A reader fails inside the first part that does not fit, whatever is written behind it,
and everything in front of that part is read as in a document that fits. Once all wrappers decode
there is one reason left to refuse a document with small exponents, and that is its depth.
-/

namespace ExtendedJson

open Grammar

/-! ## Parts that are refused -/

/-- A reader fails at a text, whatever follows it, and with an error of some sort. -/
def Refuses {α : Type} (part : Reader α) (text : List Char) (sort : Error → Prop) : Prop :=
  ∀ (c : Cursor) (rest : List Char), afterBlanks c.rest = afterBlanks (text ++ rest) →
    ∃ failure, part c = .error failure ∧ sort failure.error

section Parts

variable {α Y : Type} {part : Reader α} {text : Y → List Char} {means : Y → α → Prop}
  {brackets : Brackets} {sort : Error → Prop}

/-- The first part that is refused is where reading the parts fails. -/
theorem readParts_refused (hp : Reads part text means) {ys : List Y}
    (h : ∀ y ∈ ys, (∃ a, means y a) ∨ Refuses part (text y) sort)
    (hrefused : ∃ y ∈ ys, Refuses part (text y) sort) (rest : List Char) :
    ∀ (soFar : List α) (c : Cursor),
      afterBlanks c.rest = afterBlanks (listed (ys.map text) ++ rest) →
      ∃ failure, readParts part brackets soFar c = .error failure ∧ sort failure.error := by
  induction ys with
  | nil =>
      obtain ⟨y, hy, -⟩ := hrefused
      simp at hy
  | cons first ys ih =>
      intro soFar c hc
      rw [List.forall_mem_cons] at h
      -- a part that is read has a comma behind it, since one that is refused is still to come
      by_cases hfirst : Refuses part (text first) sort
      · obtain ⟨behind, hlisted⟩ := exists_listed_eq_append (text first) (ys.map text)
        rw [List.map_cons, hlisted, List.append_assoc] at hc
        obtain ⟨failure, hfailure, hsort⟩ := hfirst c _ hc
        exact ⟨failure, by rw [readParts, hfailure], hsort⟩
      · have hlater : ∃ y ∈ ys, Refuses part (text y) sort := by
          obtain ⟨y, hy, hbad⟩ := hrefused
          rcases List.mem_cons.mp hy with rfl | hy
          · exact absurd hbad hfirst
          · exact ⟨y, hy, hbad⟩
        have hys : ys ≠ [] := by
          rintro rfl
          simp at hlater
        obtain ⟨a, ha⟩ := h.1.resolve_right hfirst
        rw [List.map_cons, listed_cons _ (by simpa using hys), List.append_assoc,
          List.cons_append] at hc
        obtain ⟨t, ht, -, hrest⟩ := hp.complete ha (stops_cons (Or.inl rfl) _) hc
        obtain ⟨hgo, hafter⟩ := readParts_of_comma ht hrest soFar
        rw [hgo]
        exact ih h.2 hlater _ _ (by rw [hafter])

theorem readBracketed_refused (hp : Reads part text means) {ys : List Y}
    (h : ∀ y ∈ ys, (∃ a, means y a) ∨ Refuses part (text y) sort)
    (hrefused : ∃ y ∈ ys, Refuses part (text y) sort)
    (hopens : ∀ y ∈ ys, Opens brackets.closing (text y)) (gap : Gap) {c : Cursor} {rest : List Char}
    (hc : c.step.rest = gap.text ++ (listed (ys.map text) ++ rest)) :
    ∃ failure, readBracketed part brackets c = .error failure ∧ sort failure.error := by
  have hfirst : c.step.skipLayout.rest = afterBlanks (listed (ys.map text) ++ rest) := by
    rw [Cursor.rest_skipLayout, hc, afterBlanks_gap]
  have hhead : c.step.skipLayout.rest.head? ≠ some brackets.closing := by
    obtain ⟨first, later, rfl⟩ := List.exists_cons_of_ne_nil (l := ys) (by
      rintro rfl
      simp at hrefused)
    obtain ⟨behind, hlisted⟩ := exists_listed_eq_append (text first) (later.map text)
    rw [hfirst, List.map_cons, hlisted, List.append_assoc]
    exact (hopens first List.mem_cons_self).head?_ne _
  obtain ⟨failure, hfailure, hsort⟩ := readParts_refused hp h hrefused rest
    [] c.step.skipLayout (by rw [hfirst, afterBlanks_idem])
  exact ⟨failure.inside, by rw [readBracketed, if_neg hhead, hfailure], hsort⟩

theorem readBracketed_settles (brackets : Brackets) (hp : Reads part text means) {ys : List Y}
    (h : ∀ y ∈ ys, (∃ a, means y a) ∨ Refuses part (text y) sort)
    (hopens : ∀ y ∈ ys, Opens brackets.closing (text y)) :
    (∃ values, List.Forall₂ means ys values) ∨
      ∀ (gap : Gap) (c : Cursor) (rest : List Char),
        c.step.rest = gap.text ++ (listed (ys.map text) ++ rest) →
        ∃ failure, readBracketed part brackets c = .error failure ∧ sort failure.error := by
  by_cases hmeans : ∀ y ∈ ys, ∃ a, means y a
  · exact Or.inl (exists_forall₂_iff.mpr hmeans)
  · have hrefused : ∃ y ∈ ys, Refuses part (text y) sort := by
      simp only [not_forall] at hmeans
      obtain ⟨y, hy, hunread⟩ := hmeans
      exact ⟨y, hy, (h y hy).resolve_left hunread⟩
    exact Or.inr fun gap c rest hc => readBracketed_refused hp h hrefused hopens gap hc

end Parts

/-! ## Entries that are refused -/

theorem Refuses.mono {α : Type} {part : Reader α} {text : List Char} {sort other : Error → Prop}
    (h : Refuses part text sort) (hsort : ∀ error, sort error → other error) :
    Refuses part text other := by
  intro c rest hc
  obtain ⟨failure, hfailure, herror⟩ := h c rest hc
  exact ⟨failure, hfailure, hsort _ herror⟩

theorem Grammar.opens_placed (p : Placed Spelling) : Opens ']' (p.textBy Spelling.text) := by
  obtain ⟨first, tail, htext, hblank, hne⟩ := p.item.exists_cons
  exact ⟨p.before, first, tail ++ p.after.text, by rw [Placed.textBy, htext, List.cons_append],
    hblank, hne⟩

theorem Grammar.opens_key (k : Placed Quoted) : Opens '\x7d' (k.textBy Quoted.text) :=
  ⟨k.before, '"', k.item.body ++ '"' :: k.after.text, by simp [Placed.textBy, Quoted.text], rfl,
    by decide⟩

theorem Grammar.opens_memberText (m : Placed Quoted × Placed Spelling) :
    Opens '\x7d' (Spelling.memberText m) := (opens_key m.1).append _

section Entries

variable {options : ParserOptions} {levels : Nat} {sort : Error → Prop}

theorem Refuses.member {entry : Reader Entry} {m : Placed Quoted × Placed Spelling}
    (h : Refuses entry (m.2.textBy Spelling.text) sort) :
    Refuses (readMember entry) (Spelling.memberText m) sort := by
  intro c rest hc
  rw [Spelling.memberText, List.append_assoc, List.cons_append] at hc
  obtain ⟨colon, hkey, hcolon⟩ := readKey_complete m.1 hc
  obtain ⟨failure, hfailure, hsort⟩ := h colon rest (by rw [hcolon])
  refine ⟨failure, ?_, hsort⟩
  unfold readMember
  split
  · next hfailed => simp [hkey] at hfailed
  · next key colon' hread =>
      rw [hkey] at hread
      injection hread with hread
      injection hread with hname hcolon'
      subst hcolon'
      rw [hfailure]

theorem refuses_of_readEntryAt {p : Placed Spelling}
    (h : ∀ (c : Cursor) (rest : List Char), c.rest = p.item.text ++ rest →
      ∃ failure, readEntryAt options (itemReader? options levels) c = .error failure ∧
        sort failure.error) :
    Refuses (readValue options levels) (p.textBy Spelling.text) sort := by
  intro c rest hc
  have hskip : c.skipLayout.rest = p.item.text ++ (p.after.text ++ rest) := by
    rw [Cursor.rest_skipLayout, hc, Placed.textBy, List.append_assoc, afterBlanks_gap,
      List.append_assoc, afterBlanks_spelling]
  obtain ⟨failure, hfailure, hsort⟩ := h _ _ hskip
  rw [readValue_eq]
  exact ⟨failure, readValueWith_eq_error hfailure, hsort⟩

/-- The complaint about a spelling is that of the depth limit, unless the spelling means nothing. -/
def Complains (options : ParserOptions) (s : Spelling) (error : Error) : Prop :=
  s.meaning?.isSome → error = .depthLimit options.maxDepth

/-- A placed spelling fits or is refused. -/
def Settles (options : ParserOptions) (levels : Nat) (p : Placed Spelling) : Prop :=
  (∃ entry, Fits options levels p.item entry) ∨
    Refuses (readValue options levels) (p.textBy Spelling.text) (Complains options p.item)

theorem meaning?_isSome_of_array {gap : Gap} {items : List (Placed Spelling)}
    (h : (Spelling.array gap items).meaning?.isSome) : ∀ p ∈ items, p.item.meaning?.isSome := by
  simp only [Option.isSome_iff_exists]
  rw [← exists_forall₂_iff]
  rw [Spelling.meaning?] at h
  split at h
  · simp at h
  · next hitems => exact ⟨_, Spelling.itemMeanings?_eq_some_iff.mp hitems⟩

theorem meaning?_isSome_of_object {gap : Gap} {members : List (Placed Quoted × Placed Spelling)}
    (h : (Spelling.object gap members).meaning?.isSome) :
    ∀ m ∈ members, m.2.item.meaning?.isSome := by
  rw [Spelling.meaning?] at h
  split at h
  · simp at h
  · next pairs hpairs =>
      intro m hm
      obtain ⟨pair, -, hmeaning⟩ := exists_forall₂_iff.mp
        ⟨_, Spelling.memberMeanings?_eq_some_iff.mp hpairs⟩ m hm
      rw [hmeaning]
      rfl

theorem settles_opening {p : Placed Spelling}
    (h : ∀ (c : Cursor) (rest : List Char), c.rest = p.item.text ++ rest →
      readEntryAt options none c = .error ⟨.depthLimit options.maxDepth, c, 0⟩) :
    Settles options 0 p :=
  Or.inr (refuses_of_readEntryAt fun c rest hc => ⟨_, h c rest hc, fun _ => rfl⟩)

theorem refuses_array {before after gap : Gap} {items : List (Placed Spelling)}
    (h : ∀ (c : Cursor) (rest : List Char),
      c.step.rest = gap.text ++ (listed (items.map (Placed.textBy Spelling.text)) ++ rest) →
      ∃ failure, readBracketed (readValue options levels) .square c = .error failure ∧
        sort failure.error) :
    Refuses (readValue options (levels + 1))
      (Placed.textBy Spelling.text ⟨before, .array gap items, after⟩) sort := by
  refine refuses_of_readEntryAt fun c rest hc => ?_
  rw [Spelling.text, Spelling.itemTexts_eq_map, List.cons_append, List.append_assoc,
    List.append_assoc] at hc
  obtain ⟨failure, hfailure, hsort⟩ := h c _ (by rw [Cursor.rest_step, hc]; rfl)
  refine ⟨failure, ?_, hsort⟩
  rw [readEntryAt, hc]
  simp only [itemReader?, readArray, hfailure]

theorem refuses_object {before after gap : Gap} {members : List (Placed Quoted × Placed Spelling)}
    (h : ∀ (c : Cursor) (rest : List Char),
      c.step.rest = gap.text ++ (listed (members.map Spelling.memberText) ++ rest) →
      ∃ failure, readBracketed (readMember (readValue options levels)) .curly c = .error failure ∧
        sort failure.error) :
    Refuses (readValue options (levels + 1))
      (Placed.textBy Spelling.text ⟨before, .object gap members, after⟩) sort := by
  refine refuses_of_readEntryAt fun c rest hc => ?_
  rw [Spelling.text, Spelling.memberTexts_eq_map, List.cons_append, List.append_assoc,
    List.append_assoc] at hc
  obtain ⟨failure, hfailure, hsort⟩ := h c _ (by rw [Cursor.rest_step, hc]; rfl)
  refine ⟨failure, ?_, hsort⟩
  rw [readEntryAt, hc]
  simp only [readObjectEntry, itemReader?, readObject, hfailure]

theorem settles_array {before after gap : Gap} {items : List (Placed Spelling)}
    (h : ∀ p ∈ items, Settles options levels p) :
    Settles options (levels + 1) ⟨before, .array gap items, after⟩ := by
  have hsort : ∀ p ∈ items, ∀ error, Complains options p.item error →
      Complains options (.array gap items) error :=
    fun p hp error herror hsome => herror (meaning?_isSome_of_array hsome p hp)
  rcases readBracketed_settles .square (reads_value options levels)
      (fun p hp => (h p hp).imp_right fun hrefuses => hrefuses.mono (hsort p hp))
      fun p _ => opens_placed p with ⟨entries, hentries⟩ | hrefuses
  · exact Or.inl ⟨_, fits_array_iff.mpr hentries⟩
  · exact Or.inr (refuses_array (hrefuses gap))

theorem exists_fitsMember {m : Placed Quoted × Placed Spelling}
    (h : ∃ entry, Fits options levels m.2.item entry) : ∃ pair, FitsMember options levels m pair := by
  obtain ⟨entry, hdepth, hexponents, hmeaning⟩ := h
  exact ⟨(_, entry), hdepth, hexponents, rfl, hmeaning⟩

/-- An object settles when its values do. When all of them fit, the object is read to its end, and
what is left to complain about is its being a wrapper that means nothing. -/
theorem settles_object {before after gap : Gap} {members : List (Placed Quoted × Placed Spelling)}
    (h : ∀ m ∈ members, Settles options levels m.2) :
    Settles options (levels + 1) ⟨before, .object gap members, after⟩ := by
  have hsort : ∀ m ∈ members, ∀ error, Complains options m.2.item error →
      Complains options (.object gap members) error :=
    fun m hm error herror hsome => herror (meaning?_isSome_of_object hsome m hm)
  rcases readBracketed_settles .curly (reads_member (reads_value options levels))
      (fun m hm => (h m hm).imp exists_fitsMember fun hrefuses => (hrefuses.mono (hsort m hm)).member)
      fun m _ => opens_memberText m with ⟨pairs, hpairs⟩ | hrefuses
  · replace hpairs : FitsObject options (levels + 1) gap members pairs :=
      forall₂_fitsMember_iff.mp hpairs
    cases hof : Entry.ofObject ⟨Members.merged pairs⟩ with
    | ok entry =>
        exact Or.inl ⟨entry, fits_object_iff.mpr ⟨pairs, hpairs, ofObject_eq_ok_iff.mp hof⟩⟩
    | error error =>
        -- read to its closing brace, and refused for what the wrapper holds
        refine Or.inr (refuses_of_readEntryAt fun c rest hc => ?_)
        obtain ⟨behind, hread, -⟩ := readObject_complete (readsInside options _) hpairs hc
        rw [Spelling.text, List.cons_append] at hc
        rw [readEntryAt, hc]
        simp only [readObjectEntry, hread, hof]
        refine ⟨_, rfl, fun hsome => ?_⟩
        rw [Spelling.meaning?, hpairs.2.2] at hsome
        simp only [← toOption_ofObject, hof] at hsome
        simp [Except.toOption] at hsome
  · exact Or.inr (refuses_object (hrefuses gap))

theorem settles_step
    (hinside : ∀ inner, levels = inner + 1 → ∀ p : Placed Spelling,
      p.item.ExponentsWithin options.maxExponent → Settles options inner p)
    (p : Placed Spelling) (hexponents : p.item.ExponentsWithin options.maxExponent) :
    Settles options levels p := by
  obtain ⟨before, s, after⟩ := p
  cases s with
  | null => exact Or.inl ⟨_, fits_null options levels⟩
  | boolean value => exact Or.inl ⟨_, fits_boolean options levels value⟩
  | string q => exact Or.inl ⟨_, fits_string options levels q⟩
  | number n => exact Or.inl ⟨_, fits_number_iff.mpr ⟨hexponents n List.mem_cons_self, rfl⟩⟩
  | array gap items =>
      rw [Spelling.exponentsWithin_array_iff] at hexponents
      cases levels with
      | zero =>
          refine settles_opening fun c rest hc => ?_
          rw [readEntryAt, hc]
          rfl
      | succ inner => exact settles_array fun p hp => hinside inner rfl p (hexponents p hp)
  | object gap members =>
      rw [Spelling.exponentsWithin_object_iff] at hexponents
      cases levels with
      | zero =>
          refine settles_opening fun c rest hc => ?_
          rw [readEntryAt, hc]
          rfl
      | succ inner => exact settles_object fun m hm => hinside inner rfl m.2 (hexponents m hm)

theorem settles (options : ParserOptions) (levels : Nat) :
    ∀ p : Placed Spelling, p.item.ExponentsWithin options.maxExponent →
      Settles options levels p := by
  induction levels with
  | zero => exact settles_step fun inner h => by simp at h
  | succ levels ih =>
      refine settles_step fun inner h => ?_
      rw [← Nat.succ.inj h]
      exact ih

end Entries

/-! ## Documents that are refused -/

section Documents

variable {d : Document} {limits : ParserOptions}

theorem parseEntry_refused {sort : Error → Prop}
    (h : Refuses (readValue limits limits.maxDepth) (d.textBy Spelling.text) sort) :
    ∃ error, parseEntry (String.ofList d.text) limits = .error error ∧ sort error := by
  let p := Parser.ofText (String.ofList d.text) limits
  have hrest : p.cursor.rest = d.text := String.toList_ofList
  obtain ⟨failure, hfailure, hsort⟩ := h p.cursor [] (by rw [hrest, List.append_nil, Document.text])
  refine ⟨failure.error, ?_, hsort⟩
  change (p.readEntry).1 = _
  rw [Parser.readEntry, show readValue p.options p.levels p.cursor = _ from hfailure]
  rfl

/-- A document with small exponents is read as what it means, or not at all. -/
theorem parseEntry_document (hexponents : d.item.ExponentsWithin limits.maxExponent) :
    (∃ e, Fits limits limits.maxDepth d.item e ∧
        parseEntry (String.ofList d.text) limits = .ok e) ∨
      ∃ error, parseEntry (String.ofList d.text) limits = .error error ∧
        Complains limits d.item error := by
  rcases settles limits limits.maxDepth d hexponents with ⟨e, hfits⟩ | hrefuses
  · refine Or.inl ⟨e, hfits, ?_⟩
    rw [parseEntry, Parser.readEntry_eq_ok_iff]
    exact ⟨d, String.toList_ofList.symm, hfits⟩
  · exact Or.inr (parseEntry_refused hrefuses)

/-- No other spelling of its text makes up for a document that does not fit. -/
theorem parseEntry_document_eq_ok_iff (hexponents : d.item.ExponentsWithin limits.maxExponent)
    {e : Entry} : parseEntry (String.ofList d.text) limits = .ok e ↔
      d.item.depth ≤ limits.maxDepth ∧ d.item.meaning? = some e := by
  constructor
  · intro h
    rcases parseEntry_document hexponents with ⟨read, hfits, hread⟩ | ⟨error, herror, -⟩
    · rw [hread] at h
      injection h with h
      exact ⟨hfits.1, h ▸ hfits.2.2⟩
    · simp [herror] at h
  · intro h
    rw [parseEntry, Parser.readEntry_eq_ok_iff]
    exact ⟨d, String.toList_ofList.symm, h.1, hexponents, h.2⟩

/-- A document that means something is refused for its depth and for nothing else. -/
theorem parseEntry_document_eq_depthLimit_iff
    (hexponents : d.item.ExponentsWithin limits.maxExponent) {e : Entry}
    (hmeaning : d.item.meaning? = some e) :
    parseEntry (String.ofList d.text) limits = .error (.depthLimit limits.maxDepth) ↔
      limits.maxDepth < d.item.depth := by
  rw [← Nat.not_le]
  constructor
  · intro h hdepth
    rw [(parseEntry_document_eq_ok_iff hexponents).mpr ⟨hdepth, hmeaning⟩] at h
    cases h
  · intro hdepth
    rcases parseEntry_document hexponents with ⟨read, hfits, -⟩ | ⟨error, herror, hcomplaint⟩
    · exact absurd hfits.1 hdepth
    · rw [herror, hcomplaint (by rw [hmeaning]; rfl)]

end Documents

end ExtendedJson
