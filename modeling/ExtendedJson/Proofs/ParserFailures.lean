import ExtendedJson.Proofs.Grammar.Refusals
import ExtendedJson.Proofs.ParserRuns

/-!
# What a parser complains of, and where

`Blamed` says of an error of a call what it is and what its line and column are those of. That every
error is of that kind is what `Blame` knows of the failures inside. For wrappers the other direction
holds as well: wherever a text leads to a misspelled wrapper, whatever comes behind it, the wrapper is
what the call complains of. What leads there is described by `Approach`, one step for each bracket
that is opened on the way, with the parts in front of the next one.
-/

namespace ExtendedJson

open Grammar

/-! ## Ways to a wrapper -/

/-- A text that leads from a place where an entry is due to another one further in. On the way
brackets are opened, behind each of which some parts within the limits stand first. -/
inductive Approach (options : ParserOptions) (inner : Nat) : Nat → List Char → Prop
  | here (gap : Gap) : Approach options inner inner gap.text
  | item {levels : Nat} {text : List Char} (before : Gap) {items : List (Placed Spelling)}
    (fits : ∀ p ∈ items, ∃ entry, Fits options levels p.item entry)
    (further : Approach options inner levels text) :
    Approach options inner (levels + 1)
      (before.text ++ '[' :: (items.flatMap (fun p => p.textBy Spelling.text ++ [',']) ++ text))
  | member {levels : Nat} {text : List Char} (before : Gap)
    {members : List (Placed Quoted × Placed Spelling)}
    (fits : ∀ m ∈ members, ∃ pair, FitsMember options levels m pair) (key : Placed Quoted)
    (further : Approach options inner levels text) :
    Approach options inner (levels + 1)
      (before.text ++ '\x7b' :: (members.flatMap (fun m => Spelling.memberText m ++ [',']) ++
        (key.textBy Quoted.text ++ ':' :: text)))

def PassesOn {β : Type} (c : Cursor) (tail : List Char) (message : String) (r : Except Failure β) :
    Prop :=
  ∃ failure brace, r = .error failure ∧ c.Leads brace ∧ brace.rest = tail ∧
    failure.error = .malformed brace.line brace.column (.reported message)

/-- A reader passes a complaint on from every place that some text separates from that of the
complaint. -/
def StopsAt {α : Type} (part : Reader α) (before tail : List Char) (message : String) : Prop :=
  ∀ c : Cursor, afterBlanks c.rest = afterBlanks (before ++ tail) →
    PassesOn c tail message (part c)

section Parts

variable {α Y : Type} {part : Reader α} {text : Y → List Char} {means : Y → α → Prop}
  {options : ParserOptions} {levels : Nat} {before tail : List Char} {message : String}

theorem StopsAt.parts (hp : Reads part text means) (hpart : Accountable options levels part)
    (h : StopsAt part before tail message) (brackets : Brackets) {ys : List Y}
    (hys : ∀ y ∈ ys, ∃ a, means y a) (soFar : List α) {c : Cursor}
    (hc : afterBlanks c.rest =
      afterBlanks (ys.flatMap (fun y => text y ++ [',']) ++ (before ++ tail))) :
    PassesOn c tail message (readParts part brackets soFar c) := by
  -- the parts in front are read one by one, and each leaves the same text behind the rest of them
  induction ys generalizing soFar c with
  | nil =>
      obtain ⟨failure, brace, hfailed, hplaced⟩ := h c hc
      exact ⟨failure, brace, by rw [readParts, hfailed], hplaced⟩
  | cons y ys ih =>
      rw [List.forall_mem_cons] at hys
      obtain ⟨a, ha⟩ := hys.1
      rw [List.flatMap_cons, List.append_assoc, List.append_assoc, List.singleton_append] at hc
      obtain ⟨t, ht, -, hrest⟩ := hp.complete ha (stops_cons (Or.inl rfl) _) hc
      obtain ⟨hgo, hafter⟩ := readParts_of_comma ht hrest soFar
      obtain ⟨failure, brace, hfailed, hleads, hplaced⟩ := ih hys.2 (t.value :: soFar) (by rw [hafter])
      refine ⟨failure, brace, hgo.trans hfailed, ?_, hplaced⟩
      exact ((((hpart c).read ht).leads.trans (Cursor.leads_skipLayout _)).trans
        (Cursor.leads_step _)).trans hleads

theorem StopsAt.bracketed (hp : Reads part text means) (hpart : Accountable options levels part)
    (h : StopsAt part before tail message) (brackets : Brackets) {ys : List Y}
    (hys : ∀ y ∈ ys, ∃ a, means y a) (hopens : ∀ y ∈ ys, Opens brackets.closing (text y))
    (hlast : Opens brackets.closing (before ++ tail)) {c : Cursor}
    (hc : c.step.rest = ys.flatMap (fun y => text y ++ [',']) ++ (before ++ tail)) :
    PassesOn c tail message (readBracketed part brackets c) := by
  have hfirst : c.step.skipLayout.rest =
      afterBlanks (ys.flatMap (fun y => text y ++ [',']) ++ (before ++ tail)) := by
    rw [Cursor.rest_skipLayout, hc]
  have hhead : c.step.skipLayout.rest.head? ≠ some brackets.closing := by
    rw [hfirst]
    cases ys with
    | nil => simpa using hlast.head?_ne []
    | cons y ys =>
        rw [List.flatMap_cons, List.append_assoc, List.append_assoc]
        exact (hopens y List.mem_cons_self).head?_ne _
  obtain ⟨failure, brace, hfailed, hleads, hrest, herror⟩ :=
    h.parts hp hpart brackets hys [] (c := c.step.skipLayout) (by rw [hfirst, afterBlanks_idem])
  refine ⟨failure.inside, brace, by rw [readBracketed, if_neg hhead, hfailed], ?_, hrest, herror⟩
  exact (c.leads_step.trans c.step.leads_skipLayout).trans hleads

theorem StopsAt.member {entry : Reader Entry} (h : StopsAt entry before tail message)
    (key : Placed Quoted) :
    StopsAt (readMember entry) (key.textBy Quoted.text ++ ':' :: before) tail message := by
  intro c hc
  rw [List.append_assoc, List.cons_append] at hc
  obtain ⟨colon, hkey, hcolon⟩ := readKey_complete key hc
  obtain ⟨failure, brace, hfailed, hleads, hplaced⟩ := h colon (by rw [hcolon])
  have hreaches := (balanced_readKey {} 0 c).read hkey
  refine ⟨failure, brace, ?_, hreaches.leads.trans hleads, hplaced⟩
  unfold readMember
  split
  · next hunread => simp [hkey] at hunread
  · next key' colon' hread =>
      rw [hkey] at hread
      cases hread
      rw [hfailed]

end Parts

/-! ## Wrappers on the way -/

section Wrappers

variable {options : ParserOptions} {inner levels : Nat} {before tail : List Char}
  {message : String}

theorem StopsAt.array (h : StopsAt (readValue options levels) before tail message)
    (hopens : Opens ']' (before ++ tail)) {items : List (Placed Spelling)}
    (fits : ∀ p ∈ items, ∃ entry, Fits options levels p.item entry) {c : Cursor}
    (hc : c.rest = '[' :: (items.flatMap (fun p => p.textBy Spelling.text ++ [',']) ++ before) ++
      tail) :
    PassesOn c tail message (readArray options (itemReader? options (levels + 1)) c) := by
  refine h.bracketed (reads_value options levels) (accountable_readValue options levels) .square fits
    (fun p _ => opens_placed p) hopens ?_
  rw [Cursor.rest_step, hc, List.cons_append, List.drop_one, List.tail_cons, List.append_assoc]

theorem StopsAt.object (h : StopsAt (readValue options levels) before tail message)
    {members : List (Placed Quoted × Placed Spelling)}
    (fits : ∀ m ∈ members, ∃ pair, FitsMember options levels m pair) (key : Placed Quoted)
    {c : Cursor}
    (hc : c.rest = '\x7b' :: (members.flatMap (fun m => Spelling.memberText m ++ [',']) ++
      (key.textBy Quoted.text ++ ':' :: before)) ++ tail) :
    PassesOn c tail message (readObject options (itemReader? options (levels + 1)) c) := by
  obtain ⟨failure, brace, hfailed, hplaced⟩ := (h.member key).bracketed
    (reads_member (reads_value options levels)) (accountable_readValue options levels).member .curly
    fits (fun m _ => opens_memberText m) (((opens_key key).append _).append _) (c := c)
    (by rw [Cursor.rest_step, hc, List.cons_append, List.drop_one, List.tail_cons,
      List.append_assoc])
  refine ⟨failure, brace, ?_, hplaced⟩
  rw [itemReader?, readObject]
  simp only [hfailed]

theorem stopsAt_value (gap : Gap) {text : List Char}
    (hblank : afterBlanks (text ++ tail) = text ++ tail)
    (h : ∀ c : Cursor, c.rest = text ++ tail →
      PassesOn c tail message (readEntryAt options (itemReader? options levels) c)) :
    StopsAt (readValue options levels) (gap.text ++ text) tail message := by
  intro c hc
  have hskip : c.skipLayout.rest = text ++ tail := by
    rw [Cursor.rest_skipLayout, hc, List.append_assoc, afterBlanks_gap, hblank]
  obtain ⟨failure, brace, hfailed, hleads, hplaced⟩ := h _ hskip
  refine ⟨failure, brace, ?_, c.leads_skipLayout.trans hleads, hplaced⟩
  rw [readValue_eq]
  exact readValueWith_eq_error hfailed

/-- A text begins with a misspelled wrapper within the limits. -/
def BeginsMisspelled (options : ParserOptions) (levels : Nat) (text : List Char) (error : Error) :
    Prop :=
  ∃ gap members rest, text = (Spelling.object gap members).text ++ rest ∧
    (Spelling.object gap members).depth ≤ levels ∧
    (Spelling.object gap members).ExponentsWithin options.maxExponent ∧ Misspelled members error

variable {error : Error}

theorem BeginsMisspelled.exists_cons (h : BeginsMisspelled options levels tail error) :
    ∃ behind, tail = '\x7b' :: behind := by
  obtain ⟨gap, members, rest, rfl, -⟩ := h
  exact ⟨_, rfl⟩

/-- The wrapper itself is read to its end, and refused at its beginning. -/
theorem BeginsMisspelled.stopsAt (h : BeginsMisspelled options levels tail error) (gap : Gap) :
    StopsAt (readValue options levels) gap.text tail error.message := by
  obtain ⟨behind, hbrace⟩ := h.exists_cons
  obtain ⟨inside, members, rest, htail, hdepth, hexponents, hmisspelled⟩ := h
  obtain ⟨pairs, marker, kind, text, hpairs, hmerged, hkind, hdecoded⟩ := hmisspelled
  have hof : Entry.ofObject ⟨Members.merged pairs⟩ = .error error := by
    simp only [hmerged, Entry.ofObject, Object.wrapper?, ofMarker?_eq_lookup, hkind, Option.map_some,
      hdecoded]
  rw [← List.append_nil gap.text]
  refine stopsAt_value gap (by rw [hbrace]; exact afterBlanks_cons rfl _) fun c hc => ?_
  rw [List.nil_append] at hc
  obtain ⟨after, hread, -⟩ := readObject_complete (readsInside options levels)
    ⟨hdepth, hexponents, hpairs⟩ (hc.trans htail)
  refine ⟨⟨.malformed c.line c.column (.reported error.message), after, 0⟩, c, ?_, .refl c, hc, rfl⟩
  rw [readEntryAt, hc, hbrace]
  simp only [readObjectEntry, hread, hof]

theorem Approach.opens (h : Approach options inner levels before) (behind : List Char) :
    Opens ']' (before ++ '\x7b' :: behind) := by
  cases h with
  | here gap => exact ⟨gap, '\x7b', behind, rfl, rfl, by decide⟩
  | item gap | member gap =>
      exact Opens.append ⟨gap, _, _, rfl, rfl, by decide⟩ _

/-- On whatever way the wrapper is come to, it is what is complained of. -/
theorem Approach.stopsAt (h : Approach options inner levels before)
    (htail : BeginsMisspelled options inner tail error) :
    StopsAt (readValue options levels) before tail error.message := by
  obtain ⟨behind, hbrace⟩ := htail.exists_cons
  -- from the wrapper outward: what stops the reader inside of a bracket stops the one outside
  induction h with
  | here gap => exact htail.stopsAt gap
  | @item levels text gap items fits further ih =>
      refine stopsAt_value gap (afterBlanks_cons rfl _) fun c hc => ?_
      obtain ⟨failure, brace, hfailed, hplaced⟩ :=
        ih.array (hbrace ▸ further.opens behind) fits hc
      refine ⟨failure, brace, ?_, hplaced⟩
      rw [readEntryAt, hc]
      simp only [List.cons_append, hfailed]
  | @member levels text gap members fits key further ih =>
      refine stopsAt_value gap (afterBlanks_cons rfl _) fun c hc => ?_
      obtain ⟨failure, brace, hfailed, hplaced⟩ := ih.object fits key hc
      refine ⟨failure, brace, ?_, hplaced⟩
      rw [readEntryAt, hc]
      simp only [List.cons_append, readObjectEntry, hfailed]

end Wrappers

/-! ## Calls -/

/-- What is known of an error of a call that has left its parser at a place: it is the depth limit, or
a fault that was found at that place, or the complaint about a misspelled wrapper, which has the line
and column of the brace that opens it. -/
inductive Blamed (text : String) (options : ParserOptions) (last : Cursor) : Error → Prop
  | depth : Blamed text options last (.depthLimit options.maxDepth)
  | fault {fault : Fault} (place : last.In text) (own : fault.isOwn) :
    Blamed text options last (.malformed last.line last.column fault)
  | wrapper {brace : Cursor} {error : Error} (place : brace.In text)
    (undecodable : Undecodable brace last error) :
    Blamed text options last (.malformed brace.line brace.column (.reported error.message))

namespace Parser

variable {p : Parser} {inner : Nat} {before tail : List Char} {error : Error}

/-- Whether a way leads into what a call asks for: unless any entry will do, the right bracket has to
be the first to be opened. -/
def Call.Enters : Call → List Char → Prop
  | .object, before => (afterBlanks before).head? = some '\x7b'
  | .array, before => (afterBlanks before).head? = some '['
  | .entry, _ => True

def Reports {α : Type} (p : Parser) (tail : List Char) (message : String) (r : Except Error α) :
    Prop :=
  ∃ brace, p.cursor.Leads brace ∧ brace.rest = tail ∧
    r = .error (.malformed brace.line brace.column (.reported message))

theorem Reports.map {α β : Type} {message : String} {r : Except Error α}
    (h : Reports p tail message r) (f : α → β) : Reports p tail message (r.map f) := by
  obtain ⟨brace, hleads, hrest, rfl⟩ := h
  exact ⟨brace, hleads, hrest, rfl⟩

theorem reports_finish {α : Type} {r : Except Failure (α × Cursor)} {first : Cursor}
    {message : String} (hfirst : p.cursor.Leads first) (h : PassesOn first tail message r) :
    Reports p tail message (p.finish r).1 := by
  obtain ⟨failure, brace, rfl, hleads, hrest, herror⟩ := h
  exact ⟨brace, hfirst.trans hleads, hrest, congrArg Except.error herror⟩

section Misspelled

variable (hway : Approach p.options inner p.levels before)
  (htail : BeginsMisspelled p.options inner tail error) (hrest : p.cursor.rest = before ++ tail)

include hway htail hrest

theorem reports_readObject (henters : Call.object.Enters before) :
    Reports p tail error.message p.readObject.1 := by
  rw [Call.Enters] at henters
  generalize hlevels : p.levels = levels at hway
  cases hway with
  | here gap =>
      rw [afterBlanks_gap_self] at henters
      cases henters
  | item gap =>
      rw [afterBlanks_gap, afterBlanks_cons rfl] at henters
      cases henters
  | member gap fits key further =>
      have hskip := Cursor.rest_skipLayout_of_gap rfl hrest
      rw [readObject, if_pos (by rw [hskip]; rfl), hlevels]
      exact reports_finish p.cursor.leads_skipLayout ((further.stopsAt htail).object fits key hskip)

theorem reports_readArray (henters : Call.array.Enters before) :
    Reports p tail error.message p.readArray.1 := by
  obtain ⟨behind, hbrace⟩ := htail.exists_cons
  rw [Call.Enters] at henters
  generalize hlevels : p.levels = levels at hway
  cases hway with
  | here gap =>
      rw [afterBlanks_gap_self] at henters
      cases henters
  | member gap =>
      rw [afterBlanks_gap, afterBlanks_cons rfl] at henters
      cases henters
  | item gap fits further =>
      have hskip := Cursor.rest_skipLayout_of_gap rfl hrest
      rw [readArray, if_pos (by rw [hskip]; rfl), hlevels]
      exact reports_finish p.cursor.leads_skipLayout
        ((further.stopsAt htail).array (hbrace ▸ further.opens behind) fits hskip)

theorem reports_readEntry : Reports p tail error.message p.readEntry.1 := by
  obtain ⟨failure, brace, hfailed, hplaced⟩ := hway.stopsAt htail p.cursor (by rw [hrest])
  rw [readEntry, hfailed]
  exact reports_finish (.refl _) ⟨failure, brace, rfl, hplaced⟩

theorem reports_call {call : Call} (henters : call.Enters before) :
    Reports p tail error.message (p.call call).1 := by
  cases call with
  | object => exact (reports_readObject hway htail hrest henters).map _
  | array => exact (reports_readArray hway htail hrest henters).map _
  | entry => exact reports_readEntry hway htail hrest

end Misspelled

/-- A call on a fresh parser fails with the depth limit, at a fault of its own in the place that it
got to, or for a misspelled wrapper, and a text that is to be an object fails with one of these as the
cause. Each line and column is that of a place in the text. A misspelled wrapper that a text leads to
is what the call complains of, in the words of what is wrong with it and with the line and column of
its opening brace, whatever comes behind it. -/
theorem failures_blamed (text : String) (options : ParserOptions) :
    (∀ call error, ((ofText text options).call call).1 = .error error →
      Blamed text options ((ofText text options).call call).2.cursor error) ∧
    (∀ error, parseObject text options = .error error →
      ∃ cause, error = .invalidObject cause ∧
        ((ofText text options).call .object).1 = .error cause) ∧
    ∀ call before tail inner error, text.toList = before ++ tail →
      Approach options inner options.maxDepth before → Call.Enters call before →
      BeginsMisspelled options inner tail error →
      ∃ brace : Cursor, brace.Behind before ∧ ((ofText text options).call call).1 =
        .error (.malformed brace.line brace.column (.reported error.message)) := by
  refine ⟨fun call error hfailed => ?_, fun error hfailed => ?_,
    fun call before tail inner error htext hway henters htail => ?_⟩
  · obtain ⟨failure, hblame, rfl, hplace⟩ := exists_blame hfailed
    have hstart : (ofText text options).cursor.In text := Cursor.in_start text
    rw [hplace]
    cases hblame with
    | depth => exact .depth
    | fault leads _ own => exact .fault (leads.in hstart) own
    | wrapper reaches _ _ undecodable => exact .wrapper (reaches.in hstart) undecodable
  · unfold parseObject at hfailed
    split at hfailed
    · cases hfailed
    · next cause hcause =>
        cases hfailed
        exact ⟨cause, rfl, congrArg (Except.map Entry.object) hcause⟩
  · obtain ⟨brace, hleads, hbrace, hfailed⟩ :=
      reports_call (p := ofText text options) hway htail htext henters
    exact ⟨brace, hleads.behind (hbrace ▸ htext), hfailed⟩

/-- The brace of the inner object, with all brackets still open behind it. -/
example :
    (match ((ofText "[1,\n\x7b\"a\":\x7b\"%tm%\":\"x\"\x7d\x7d,?" {}).call .array).1 with
      | .error (.malformed line column _) => some (line, column)
      | _ => none) = some (2, 6) := by
  decide +kernel

end Parser

end ExtendedJson
