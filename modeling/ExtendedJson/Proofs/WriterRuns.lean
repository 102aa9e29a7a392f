import ExtendedJson.Proofs.OutsideLiterals

/-!
# One writer, many entries

A writer goes on after a complaint: the text that it had got to stays, and so does the level of the
brackets that it had opened. What one call leaves behind is said here by the text that it appended.
The level has risen by the brackets that this text opens and does not close, outside of literals, and
it was never below where the call began. That is so at each moment of a call, from there at its end,
and by induction over the calls for all that one writer ever writes.

Pieces that are taken from the front raise the level at least as often as they lower it, whatever the
rules that end the taking. So this needs no look at which complaint was made, or where.
-/

namespace ExtendedJson

/-! ## Levels of pieces -/

namespace Piece

/-- By how much a piece raises the nesting level. -/
def rise : Piece → Int
  | lexeme _ => 0
  | opening _ _ => 1
  | closing _ => -1
  | lineBreak _ => 0

/-- Whether the text of a piece is what the piece is taken for. -/
def Proper : Piece → Prop
  | lexeme text => Lexeme text
  | opening bracket _ => bracket ∈ openingBrackets
  | closing bracket => bracket ∈ closingBrackets
  | lineBreak _ => True

theorem Proper.scanned {piece : Piece} (h : piece.Proper) (options : WriterOptions) :
    ∃ left opens closes, Scanned (piece.render options) left opens closes ∧
      (opens : Int) - closes = piece.rise := by
  cases piece with
  | lexeme text =>
      have hlexeme : Lexeme text := h
      exact ⟨_, _, _, hlexeme.scanned, Int.sub_self _⟩
  | opening bracket marker => exact ⟨_, _, _, scanned_opening h, rfl⟩
  | closing bracket => exact ⟨_, _, _, scanned_closing h, rfl⟩
  | lineBreak level =>
      rw [render]
      cases options.style with
      | compact => exact ⟨_, _, _, scanned_nil, rfl⟩
      | readable => exact ⟨_, _, _, scanned_indent _, rfl⟩

end Piece

/-- By how much some pieces raise the nesting level. -/
def rise : List Piece → Int
  | [] => 0
  | piece :: pieces => piece.rise + rise pieces

theorem rise_append (first second : List Piece) :
    rise (first ++ second) = rise first + rise second := by
  induction first with
  | nil => exact (Int.zero_add _).symm
  | cons piece first ih => rw [List.cons_append, rise, rise, ih, Int.add_assoc]

/-- Pieces that close what they open, and nothing else. -/
structure Nested (pieces : List Piece) : Prop where
  proper : ∀ piece ∈ pieces, piece.Proper
  total : rise pieces = 0
  above : ∀ n, 0 ≤ rise (pieces.take n)

theorem nested_nil : Nested [] where
  proper := nofun
  total := rfl
  above n := by
    rw [List.take_nil]
    exact Int.le_refl 0

theorem Nested.append {first second : List Piece} (hfirst : Nested first) (hsecond : Nested second) :
    Nested (first ++ second) where
  proper := List.forall_mem_append.mpr ⟨hfirst.proper, hsecond.proper⟩
  total := by rw [rise_append, hfirst.total, hsecond.total, Int.add_zero]
  above n := by
    rw [List.take_append, rise_append]
    exact Int.add_nonneg (hfirst.above n) (hsecond.above _)

theorem nested_level {piece : Piece} (hproper : piece.Proper) (hlevel : piece.rise = 0) :
    Nested [piece] where
  proper := List.forall_mem_singleton.mpr hproper
  total := by rw [rise, hlevel]; rfl
  above n := by
    cases n with
    | zero => exact Int.le_refl 0
    | succ n =>
        rw [List.take_succ_cons, List.take_nil, rise, hlevel]
        exact Int.le_refl 0

theorem nested_bracketed {level : Nat} {opening closing : Char} {marker : Option String}
    {inner : List Piece} (hopening : opening ∈ openingBrackets) (hclosing : closing ∈ closingBrackets)
    (h : Nested inner) : Nested (WriteRules.bracketed level opening closing marker inner) where
  proper := by
    rw [WriteRules.bracketed, List.forall_mem_cons, List.forall_mem_append]
    refine ⟨hopening, h.proper, ?_⟩
    rw [List.forall_mem_cons, List.forall_mem_singleton]
    exact ⟨trivial, hclosing⟩
  total := by
    rw [WriteRules.bracketed, rise, rise_append, h.total]
    rfl
  above n := by
    -- what is closed at the end was opened in front
    have hend (m : Nat) : -1 ≤ rise ([Piece.lineBreak level, .closing closing].take m) := by
      rcases m with _ | _ | m <;> simp [rise, Piece.rise]
    cases n with
    | zero => exact Int.le_refl 0
    | succ n =>
        rw [WriteRules.bracketed, List.take_succ_cons, rise, List.take_append, rise_append]
        have := h.above n
        have := hend (n - inner.length)
        simp only [Piece.rise]
        omega

theorem nested_separated {rows : List (List Piece)} (hrows : ∀ row ∈ rows, Nested row) :
    ∀ {separator : List Piece}, Nested separator →
      Nested (WriteRules.separated separator rows) := by
  induction rows with
  | nil => exact fun _ => nested_nil
  | cons row rows ih =>
      intro separator hseparator
      rw [List.forall_mem_cons] at hrows
      exact hseparator.append (hrows.1.append (ih hrows.2 (nested_level lexeme_comma rfl)))

theorem Entry.nested_layout (e : Entry) : ∀ level, Nested (e.layout level) := by
  have hbreak (level : Nat) : Nested [.lineBreak level] := nested_level trivial rfl
  have hleaf {e : Entry} {level : Nat} (h : e.layout level = [.lexeme e.compactText]) :
      Nested (e.layout level) := by
    rw [h]
    exact nested_level e.lexeme_compactText rfl
  induction e using byShape with
  | array items ih =>
      intro level
      by_cases hitems : items = []
      · subst hitems
        exact hleaf rfl
      · rw [layout_array hitems]
        refine nested_bracketed (by simp) (by simp)
          (nested_separated (List.forall_mem_map.mpr fun item hitem => ?_) nested_nil)
        exact (hbreak _).append (ih item hitem _)
  | object pairs ih =>
      intro level
      by_cases hpairs : pairs = []
      · subst hpairs
        exact hleaf rfl
      · have hkey (key : String) : Nested [.lexeme (JsonString.quote key.toList ++ [':'])] :=
          nested_level (lexeme_key _) rfl
        rw [layout_object hpairs]
        refine nested_bracketed (by simp) (by simp)
          (nested_separated (List.forall_mem_map.mpr fun pair hpair => ?_) nested_nil)
        exact (hbreak _).append ((hkey pair.1).append (ih pair hpair _))
  | null | boolean | number | string | binary | date | time | timestamp =>
      exact fun level => hleaf rfl

theorem scanned_renderPieces (options : WriterOptions) {pieces : List Piece}
    (h : ∀ piece ∈ pieces, piece.Proper) :
    ∃ left opens closes, Scanned (renderPieces options pieces) left opens closes ∧
      (opens : Int) - closes = rise pieces := by
  induction pieces with
  | nil => exact ⟨_, _, _, scanned_nil, rfl⟩
  | cons piece pieces ih =>
      rw [List.forall_mem_cons] at h
      obtain ⟨left, opens, closes, hpiece, hrise⟩ := h.1.scanned options
      obtain ⟨left', opens', closes', hpieces, hrise'⟩ := ih h.2
      refine ⟨_, _, _, hpiece.append hpieces, ?_⟩
      rw [rise]
      omega

/-! ## Taking pieces -/

namespace WriteRules

theorem acceptFrom_cons (rules : WriteRules) {piece : Piece} {level : Nat}
    (h : 0 ≤ (level : Int) + piece.rise) (accepted : Nat) (rest : List Piece) :
    (∃ error, rules.acceptFrom accepted level (piece :: rest) = ⟨accepted, level, some error⟩) ∨
      ∃ next : Nat, (next : Int) = level + piece.rise ∧
        rules.acceptFrom accepted level (piece :: rest) =
          rules.acceptFrom (accepted + 1) next rest := by
  cases piece with
  | lexeme text => exact .inr ⟨level, by simp [Piece.rise], rfl⟩
  | lineBreak at_ => exact .inr ⟨level, by simp [Piece.rise], rfl⟩
  | closing bracket =>
      simp only [Piece.rise] at h
      exact .inr ⟨level - 1, by simp only [Piece.rise]; omega, rfl⟩
  | opening bracket marker =>
      rw [acceptFrom]
      cases rules.refusal? level marker with
      | some error => exact .inl ⟨error, rfl⟩
      | none => exact .inr ⟨level + 1, by simp [Piece.rise], rfl⟩

/-- Of pieces that never fall below the ground some are taken, and the level has risen by what these
rise. Without a complaint they are all. -/
theorem acceptFrom_rise (rules : WriteRules) {pieces : List Piece} : ∀ {level : Nat},
    (∀ n, 0 ≤ (level : Int) + rise (pieces.take n)) → ∀ accepted,
    ∃ count ≤ pieces.length,
      (rules.acceptFrom accepted level pieces).accepted = accepted + count ∧
      ((rules.acceptFrom accepted level pieces).level : Int) = level + rise (pieces.take count) ∧
      ((rules.acceptFrom accepted level pieces).error = none → count = pieces.length) := by
  induction pieces with
  | nil => exact fun _ accepted => ⟨0, Nat.le_refl 0, rfl, (Int.add_zero _).symm, fun _ => rfl⟩
  | cons piece pieces ih =>
      intro level h accepted
      have hfirst : 0 ≤ (level : Int) + piece.rise := by
        simpa [rise] using h 1
      rcases acceptFrom_cons rules hfirst accepted pieces with
        ⟨error, hrefused⟩ | ⟨next, hnext, htaken⟩
      · rw [hrefused]
        exact ⟨0, Nat.zero_le _, rfl, (Int.add_zero _).symm, nofun⟩
      · have hrest (n : Nat) : 0 ≤ (next : Int) + rise (pieces.take n) := by
          have := h (n + 1)
          rw [List.take_succ_cons, rise] at this
          omega
        obtain ⟨count, hcount, haccepted, hlevel, hall⟩ := ih hrest (accepted + 1)
        rw [htaken, haccepted, hlevel]
        refine ⟨count + 1, Nat.succ_le_succ hcount, by omega, ?_, fun hnone => ?_⟩
        · rw [List.take_succ_cons, rise, hnext, Int.add_assoc]
        · rw [hall hnone, List.length_cons]

end WriteRules

/-! ## Calls -/

namespace Writer

/-- Writes some pieces as far as some rules allow. With all pieces of an entry that is a call, and with
the first of them what the call has done by then. -/
def put (w : Writer) (rules : WriteRules) (pieces : List Piece) : Except Error Unit × Writer :=
  let admission := rules.accept w.level pieces
  let written := renderPieces w.options (pieces.take admission.accepted)
  let next := { w with level := admission.level, output := w.output ++ written }
  match admission.error with
  | some error => (.error error, next)
  | none => (.ok (), next)

theorem write_eq_put (w : Writer) (e : Entry) : w.write e = w.put w.rules (e.layout w.level) := rfl

def textOf (w : Writer) (e : Entry) : List Char := renderPieces w.options (e.layout w.level)

/-- How a writer has gone on when it has written some text: the text is appended, and the level has
risen by the brackets that it opens and does not close. -/
structure Appended (w v : Writer) (text : List Char) : Prop where
  options : v.options = w.options
  output : v.output = w.output ++ text
  whole : Whole text
  level : v.level + closed text = w.level + opened text
  above : w.level ≤ v.level

theorem Appended.refl (w : Writer) : Appended w w [] :=
  ⟨rfl, (List.append_nil _).symm, whole_nil, rfl, Nat.le_refl _⟩

theorem Appended.trans {u v w : Writer} {first second : List Char} (hfirst : Appended u v first)
    (hsecond : Appended v w second) : Appended u w (first ++ second) where
  options := hsecond.options.trans hfirst.options
  output := by rw [hsecond.output, hfirst.output, List.append_assoc]
  whole := hfirst.whole.append hsecond.whole
  level := by
    rw [hfirst.whole.closed_append, hfirst.whole.opened_append]
    have := hfirst.level
    have := hsecond.level
    omega
  above := hfirst.above.trans hsecond.above

theorem put_snd (w : Writer) (rules : WriteRules) (pieces : List Piece) :
    (w.put rules pieces).2 = { w with
      level := (rules.accept w.level pieces).level
      output := w.output ++
        renderPieces w.options (pieces.take (rules.accept w.level pieces).accepted) } := by
  rw [put]
  cases (rules.accept w.level pieces).error <;> rfl

theorem put_fst_eq_ok_iff {w : Writer} {rules : WriteRules} {pieces : List Piece} :
    (w.put rules pieces).1 = .ok () ↔ (rules.accept w.level pieces).error = none := by
  rw [put]
  cases (rules.accept w.level pieces).error <;> simp

theorem renderPieces_take (options : WriterOptions) (pieces : List Piece) (count : Nat) :
    renderPieces options (pieces.take count) <+: renderPieces options pieces := by
  conv => rhs; rw [← List.take_append_drop count pieces, Grammar.renderPieces_append]
  exact List.prefix_append _ _

/-- However far a writer is let into pieces that close what they open, it writes a part of their text
from the front, and without a complaint all that it was let into. -/
theorem appended_put (w : Writer) (rules : WriteRules) {pieces : List Piece} (h : Nested pieces)
    (n : Nat) : ∃ text, text <+: renderPieces w.options pieces ∧
      Appended w (w.put rules (pieces.take n)).2 text ∧
      ((w.put rules (pieces.take n)).1 = .ok () →
        text = renderPieces w.options (pieces.take n)) := by
  have hlevels (m : Nat) : 0 ≤ (w.level : Int) + rise ((pieces.take n).take m) := by
    rw [List.take_take]
    exact Int.add_nonneg (Int.natCast_nonneg _) (h.above _)
  obtain ⟨count, hcount, haccepted, hlevel, hall⟩ := rules.acceptFrom_rise hlevels 0
  rw [Nat.zero_add] at haccepted
  have hproper : ∀ piece ∈ (pieces.take n).take count, piece.Proper :=
    fun piece hpiece => h.proper piece (List.mem_of_mem_take (List.mem_of_mem_take hpiece))
  obtain ⟨_, opens, closes, hscanned, hrise⟩ := scanned_renderPieces w.options hproper
  -- the pieces that were let in never close more than they opened, wherever they were cut off
  have habove : 0 ≤ rise ((pieces.take n).take count) := by
    rw [List.take_take]
    exact h.above _
  refine ⟨renderPieces w.options ((pieces.take n).take count), ?_, ?_, fun hok => ?_⟩
  · exact (renderPieces_take _ _ _).trans (renderPieces_take _ _ _)
  · rw [put_snd, WriteRules.accept, haccepted]
    refine ⟨rfl, rfl, hscanned.whole, ?_, ?_⟩
    · rw [hscanned.opens, hscanned.closes]
      simp only
      omega
    · simp only
      omega
  · rw [hall (put_fst_eq_ok_iff.mp hok), List.take_length]

/-- Without a limit that matters and without a guard, a writer writes all of an entry's text. -/
theorem put_unlimited (w : Writer) (e : Entry) {limit : Nat}
    (h : w.level + e.writingDepth ≤ limit) :
    w.put ⟨limit, false⟩ (e.layout w.level) =
      (.ok (), { w with output := w.output ++ w.textOf e }) := by
  have hpasses := (Entry.decided ⟨limit, false⟩ e w.level (Nat.le_of_add_right_le h)).passes
    ⟨nofun, h⟩ 0 []
  rw [List.append_nil] at hpasses
  rw [put, WriteRules.accept, hpasses]
  simp [WriteRules.acceptFrom, textOf]

theorem appended_write (w : Writer) (e : Entry) : ∃ text,
    text <+: w.textOf e ∧ Appended w (w.write e).2 text ∧
      ((w.write e).1 = .ok () → text = w.textOf e ∧ (w.write e).2.level = w.level) := by
  have hnested := e.nested_layout w.level
  obtain ⟨text, hpart, happended, hall⟩ :=
    w.appended_put w.rules hnested (e.layout w.level).length
  rw [List.take_length, ← write_eq_put] at happended hall
  refine ⟨text, hpart, happended, fun hok => ?_⟩
  obtain ⟨_, opens, closes, hscanned, hbalanced⟩ := scanned_renderPieces w.options hnested.proper
  rw [hnested.total] at hbalanced
  have hlevel := happended.level
  rw [hall hok, hscanned.opens, hscanned.closes] at hlevel
  exact ⟨hall hok, by omega⟩

theorem write_fresh {w : Writer} {e : Entry} (hlevel : w.level = 0) (hok : (w.write e).1 = .ok ()) :
    e.write w.options = .ok (String.ofList (w.textOf e)) := by
  -- the layout of an entry shows the level of its writer, and so does the limit that is left
  let fresh : Writer := { options := w.options }
  have hfresh : (fresh.write e).1 = .ok () := by
    have hnone := put_fst_eq_ok_iff.mp hok
    rw [hlevel] at hnone
    exact put_fst_eq_ok_iff.mpr hnone
  obtain ⟨text, -, happended, hend⟩ := fresh.appended_write e
  have houtput : (fresh.write e).2.output = w.textOf e := by
    rw [happended.output, (hend hfresh).1, textOf, textOf, hlevel]
    rfl
  have hpair : fresh.write e = (.ok (), (fresh.write e).2) := Prod.ext hfresh rfl
  rw [Entry.write, hpair]
  simp only [houtput]

/-! ## Runs -/

def after (w : Writer) (entries : List Entry) : Writer :=
  entries.foldl (fun w e => (w.write e).2) w

theorem appended_after (w : Writer) (entries : List Entry) :
    ∃ text, Appended w (w.after entries) text := by
  induction entries generalizing w with
  | nil => exact ⟨[], .refl w⟩
  | cons e entries ih =>
      obtain ⟨first, -, hfirst, -⟩ := w.appended_write e
      obtain ⟨rest, hrest⟩ := ih (w.write e).2
      exact ⟨first ++ rest, hfirst.trans hrest⟩

theorem output_after {entries : List Entry} : ∀ {w : Writer}, w.level = 0 →
    (∀ done e todo, entries = done ++ e :: todo → ((w.after done).write e).1 = .ok ()) →
    (w.after entries).level = 0 ∧ ∃ texts,
      List.Forall₂ (fun e text => e.write w.options = .ok text) entries texts ∧
      (w.after entries).output = w.output ++ texts.flatMap String.toList := by
  induction entries with
  | nil => exact fun hlevel _ => ⟨hlevel, [], .nil, (List.append_nil _).symm⟩
  | cons e entries ih =>
      intro w hlevel hall
      have hok : (w.write e).1 = .ok () := hall [] e entries rfl
      obtain ⟨text, -, happended, hend⟩ := w.appended_write e
      obtain ⟨htext, hback⟩ := hend hok
      obtain ⟨hafter, texts, htexts, houtput⟩ := ih (hback.trans hlevel)
        fun done e' todo hsplit => hall (e :: done) e' todo (by rw [hsplit, List.cons_append])
      rw [happended.options] at htexts
      rw [happended.output] at houtput
      refine ⟨hafter, _, .cons (write_fresh hlevel hok) htexts, ?_⟩
      rw [List.flatMap_cons, String.toList_ofList, ← htext, ← List.append_assoc]
      exact houtput

/-- Of any call in any run: what it appends is a part, from the front, of what a writer without limit
and guard would append, with the level risen by the brackets opened and not closed, at each moment and
at the end. A call that succeeds appends all of it and comes back to its level, and at level zero that
is the text of the entry. While all calls succeed, the output is the texts one after the other. -/
theorem calls_only_append (options : WriterOptions) (earlier : List Entry) (e : Entry) :
    let w := Writer.after { options } earlier
    (w.options = options ∧ w.level + closed w.output = opened w.output) ∧
    (∀ limit, w.level + e.writingDepth ≤ limit →
      w.put ⟨limit, false⟩ (e.layout w.level) =
        (.ok (), { w with output := w.output ++ w.textOf e })) ∧
    (∀ n, ∃ text, text <+: w.textOf e ∧
      Appended w (w.put w.rules ((e.layout w.level).take n)).2 text) ∧
    (∃ text, text <+: w.textOf e ∧ Appended w (w.write e).2 text ∧
      ((w.write e).1 = .ok () → text = w.textOf e ∧ (w.write e).2.level = w.level ∧
        (w.level = 0 → e.write options = .ok (String.ofList text)))) ∧
    ((∀ done next todo, earlier = done ++ next :: todo →
        ((Writer.after { options } done).write next).1 = .ok ()) →
      w.level = 0 ∧ ∃ texts,
        List.Forall₂ (fun entry text => entry.write options = .ok text) earlier texts ∧
        w.output = texts.flatMap String.toList) := by
  intro w
  obtain ⟨written, hrun⟩ := Writer.appended_after { options } earlier
  have hoptions : w.options = options := hrun.options
  refine ⟨⟨hoptions, ?_⟩, fun limit => w.put_unlimited e, fun n => ?_, ?_, ?_⟩
  · have houtput : w.output = written := hrun.output
    have hlevel := hrun.level
    rw [houtput]
    simpa using hlevel
  · obtain ⟨text, hpart, happended, -⟩ := w.appended_put w.rules (e.nested_layout w.level) n
    exact ⟨text, hpart, happended⟩
  · obtain ⟨text, hpart, happended, hend⟩ := w.appended_write e
    refine ⟨text, hpart, happended, fun hok => ?_⟩
    obtain ⟨htext, hlevel⟩ := hend hok
    refine ⟨htext, hlevel, fun hzero => ?_⟩
    rw [htext, ← hoptions]
    exact write_fresh hzero hok
  · exact output_after rfl

/-- What was written before the inner bracket was refused stays, and so does the level. -/
example :
    let w := (Writer.write { options := { maxDepth := 1 } } (.array [.null, .array [.null]])).2
    (w.level, w.output) = (1, "[null,".toList) := by
  decide

end Writer

end ExtendedJson
