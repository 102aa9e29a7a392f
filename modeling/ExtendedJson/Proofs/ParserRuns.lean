import ExtendedJson.Reader.Parser
import ExtendedJson.Proofs.Blame

/-!
# One parser, many calls

A parser can be asked again after a failure: it goes on from the place where reading ended, with the
brackets counted that were open there. `Ends` says in what ways a call can end, by what is known of
the readers, and whatever else is said of calls follows from that: they only move the cursor on, whole
characters at a time, and leave no more brackets open than allowed. A run of calls is then an
induction over its calls.
-/

namespace ExtendedJson

/-! ## Calls -/

namespace Parser

/-- What a parser can be asked for. -/
inductive Call where
  | object
  | array
  | entry
deriving DecidableEq

/-- Asks a parser, with what it reads as an entry. -/
def call (p : Parser) : Call → Except Error Entry × Parser
  | .object => (p.readObject.1.map .object, p.readObject.2)
  | .array => (p.readArray.1.map .array, p.readArray.2)
  | .entry => p.readEntry

def after (p : Parser) (calls : List Call) : Parser :=
  calls.foldl (fun p call => (p.call call).2) p

variable {α β : Type} {p : Parser}

/-- How a call ends: it fails in a way that can be explained, or it has used up the text. -/
inductive Ends (p : Parser) : Except Error α × Parser → Prop
  | failed {failure : Failure} (blame : Blame p.options p.levels p.cursor failure) :
    Ends p (p.failed failure)
  | finished {value : α} {last : Cursor} (climbs : p.cursor.Climbs 0 last) (used : last.rest = []) :
    Ends p (.ok value, { p with cursor := last })

theorem ends_finish {r : Except Failure (α × Cursor)}
    (h : Balanced p.options p.levels p.cursor r) : Ends p (p.finish r) := by
  unfold finish
  split
  · next failure => exact .failed (h.failed rfl)
  · next after =>
      have hlast := (h.read rfl).trans after.climbs_skipLayout
      simp only
      split
      · next hend => exact .finished hlast (List.isEmpty_iff.mp hend)
      · exact .failed (.malformed hlast.leads rfl)

theorem Ends.map {r : Except Error α × Parser} (h : Ends p r) (f : α → β) :
    Ends p (r.1.map f, r.2) := by
  cases h with
  | failed blame => exact .failed blame
  | finished climbs used => exact .finished climbs used

theorem ends_readObject (p : Parser) : Ends p p.readObject := by
  have hfirst := p.cursor.climbs_skipLayout
  unfold readObject
  simp only
  split
  · next hopens =>
      exact ends_finish (((accountableInside p.options p.levels).object hopens).from hfirst)
  · exact .failed (.malformed hfirst.leads rfl)

theorem ends_readArray (p : Parser) : Ends p p.readArray := by
  have hfirst := p.cursor.climbs_skipLayout
  unfold readArray
  simp only
  split
  · next hopens =>
      exact ends_finish (((accountableInside p.options p.levels).array hopens).from hfirst)
  · exact .failed (.malformed hfirst.leads rfl)

theorem ends_readEntry (p : Parser) : Ends p p.readEntry := by
  have hvalue := accountable_readValue p.options p.levels p.cursor
  refine ends_finish ?_
  split
  · next hfailed => exact hvalue.failed hfailed
  · next hread => exact hvalue.read hread

theorem ends_call (p : Parser) (call : Call) : Ends p (p.call call) := by
  cases call with
  | object => exact p.ends_readObject.map _
  | array => exact p.ends_readArray.map _
  | entry => exact p.ends_readEntry

theorem exists_blame {call : Call} {error : Error} (h : (p.call call).1 = .error error) :
    ∃ failure, Blame p.options p.levels p.cursor failure ∧ failure.error = error ∧
      (p.call call).2.cursor = failure.place := by
  have hends := p.ends_call call
  generalize p.call call = r at h hends
  cases hends with
  | failed blame => exact ⟨_, blame, Except.error.inj h, rfl⟩
  | finished => cases h

/-- What a call does to a parser, whatever comes of it. -/
structure Progress (p : Parser) (r : Except Error α × Parser) : Prop where
  options : r.2.options = p.options
  leads : p.cursor.Leads r.2.cursor
  opened : p.depth ≤ r.2.depth ∧ r.2.depth ≤ p.depth + p.levels
  finished : ∀ value, r.1 = .ok value → r.2.depth = p.depth ∧ r.2.cursor.rest = []

theorem Ends.progress {r : Except Error α × Parser} (h : Ends p r) : Progress p r := by
  cases h with
  | failed blame =>
      exact ⟨rfl, blame.leads, ⟨Nat.le_add_right _ _, Nat.add_le_add_left blame.opened_le _⟩, nofun⟩
  | finished climbs used =>
      exact ⟨rfl, climbs.leads, ⟨Nat.le_refl _, Nat.le_add_right _ _⟩, fun _ _ => ⟨rfl, used⟩⟩

theorem progress_call (p : Parser) (call : Call) : Progress p (p.call call) :=
  (p.ends_call call).progress

/-! ## Runs -/

/-- Where a parser may be: at a place in its text, with no more brackets open than allowed. -/
structure Placed (text : String) (p : Parser) : Prop where
  place : p.cursor.In text
  depth : p.depth ≤ p.options.maxDepth

theorem Placed.call {text : String} (h : Placed text p) (call : Call) :
    Placed text (p.call call).2 := by
  have hprogress := p.progress_call call
  have hdepth := h.depth
  have hopened := hprogress.opened.2
  refine ⟨hprogress.leads.in h.place, ?_⟩
  rw [hprogress.options]
  unfold levels at hopened
  omega

theorem Placed.after {text : String} (h : Placed text p) (calls : List Call) :
    Placed text (p.after calls) ∧ (p.after calls).options = p.options := by
  induction calls generalizing p with
  | nil => exact ⟨h, rfl⟩
  | cons call calls ih =>
      obtain ⟨hplaced, hoptions⟩ := ih (h.call call)
      exact ⟨hplaced, hoptions.trans (p.progress_call call).options⟩

theorem readValue_at_end (options : ParserOptions) (levels : Nat) {c : Cursor} (h : c.rest = []) :
    readValue options levels c = .error (.malformed c.skipLayout .noValueAtEnd) := by
  have hentry (item : Option (Reader Entry)) :
      readEntryAt options item c.skipLayout = .error (.malformed c.skipLayout .noValueAtEnd) := by
    unfold readEntryAt
    split
    · rfl
    · next hcons => simp [Cursor.skipLayout, h] at hcons
  rw [readValue_eq]
  exact readValueWith_eq_error (hentry _)

/-- At the end of the text every call complains, and about the text. -/
theorem call_at_end (h : p.cursor.rest = []) (call : Call) :
    ∃ line column fault, (p.call call).1 = .error (.malformed line column fault) := by
  have hfirst : p.cursor.skipLayout.rest.head? ≠ some '\x7b' ∧
      p.cursor.skipLayout.rest.head? ≠ some '[' := by
    simp [Cursor.skipLayout, h]
  cases call with
  | object =>
      rw [Parser.call, readObject]
      simp only [if_neg hfirst.1]
      exact ⟨_, _, _, rfl⟩
  | array =>
      rw [Parser.call, readArray]
      simp only [if_neg hfirst.2]
      exact ⟨_, _, _, rfl⟩
  | entry =>
      rw [Parser.call, readEntry, readValue_at_end p.options p.levels h]
      exact ⟨_, _, _, rfl⟩

theorem rest_after_of_end (h : p.cursor.rest = []) (calls : List Call) :
    (p.after calls).cursor.rest = [] := by
  induction calls generalizing p with
  | nil => exact h
  | cons call calls ih =>
      obtain ⟨n, hn⟩ := (p.progress_call call).leads
      refine ih ?_
      rw [hn, Cursor.rest_skip, h, List.drop_nil]

/-- Of any call in any run on one text: before and after it the parser is at a place in the text,
which a call never moves back, with no more brackets open than allowed. A call that succeeds leaves as
many open as before and the text used up, so that every later call complains about the text. A call
that fails leaves at least as many open. -/
theorem calls_move_on (text : String) (options : ParserOptions) (earlier : List Call) (call : Call) :
    let p := (ofText text options).after earlier
    let q := (p.call call).2
    (p.cursor.In text ∧ p.depth ≤ options.maxDepth) ∧
    (q.cursor.In text ∧ q.depth ≤ options.maxDepth) ∧
    (p.cursor.offset ≤ q.cursor.offset ∧ q.cursor.offset ≤ text.utf8ByteSize ∧
      String.Pos.Raw.IsValid text ⟨q.cursor.offset⟩) ∧
    (∀ error, (p.call call).1 = .error error → p.depth ≤ q.depth) ∧
    ∀ entry, (p.call call).1 = .ok entry →
      q.depth = p.depth ∧ q.cursor.offset = text.utf8ByteSize ∧
      ∀ later next, ∃ line column fault,
        ((q.after later).call next).1 = .error (.malformed line column fault) := by
  intro p q
  have hstart : Placed text (ofText text options) := ⟨Cursor.in_start text, Nat.zero_le _⟩
  obtain ⟨hp, hoptions⟩ := hstart.after earlier
  have hprogress : Progress p (p.call call) := p.progress_call call
  have hq : Placed text q := hp.call call
  have hlimit : p.options.maxDepth = options.maxDepth := by rw [hoptions]; rfl
  have hlimit' : q.options.maxDepth = options.maxDepth := by rw [hprogress.options, hlimit]
  refine ⟨⟨hp.place, hlimit ▸ hp.depth⟩, ⟨hq.place, hlimit' ▸ hq.depth⟩,
    ⟨hprogress.leads.offset_le, hq.place.offset_le, hq.place.isValid⟩,
    fun _ _ => hprogress.opened.1, fun entry hok => ?_⟩
  obtain ⟨hdepth, hrest⟩ := hprogress.finished entry hok
  exact ⟨hdepth, hq.place.offset_eq hrest, fun later next =>
    call_at_end (rest_after_of_end hrest later) next⟩

/-- Both brackets are still open where the text ends. -/
example :
    let p := ((ofText "[[1,\n" {}).call .array).2
    (p.depth, p.cursor.line, p.cursor.column) = (2, 2, 1) := by
  decide +kernel

end Parser

end ExtendedJson
