import ExtendedJson.Writer.Writer
import ExtendedJson.Proofs.EntryShape

/-!
# What a writer writes

A writer gets through the pieces of an entry or it does not, whatever follows them and however many
it took before. Both are properties of a list of pieces at a nesting level, and both can be put
together from those of its parts, so that one induction over entries tells which of them holds: the
pieces pass just when no object inside would be read back as something else and the brackets fit
into the levels that are left. Where nothing would be read back as something else, the levels are the
only thing that a writer can complain about.
-/

namespace ExtendedJson

/-! ## Pieces -/

namespace WriteRules

variable {rules : WriteRules} {level : Nat} {first second : List Piece}

/-- Taken to the end, with the level behind it as before it. -/
def Passes (rules : WriteRules) (level : Nat) (pieces : List Piece) : Prop :=
  ∀ accepted rest, rules.acceptFrom accepted level (pieces ++ rest) =
    rules.acceptFrom (accepted + pieces.length) level rest

/-- Not taken to the end. -/
def Stuck (rules : WriteRules) (level : Nat) (pieces : List Piece) : Prop :=
  ∀ accepted rest, (rules.acceptFrom accepted level (pieces ++ rest)).error ≠ none

theorem passes_nil (rules : WriteRules) (level : Nat) : Passes rules level [] :=
  fun _ _ => rfl

theorem passes_lexeme (rules : WriteRules) (level : Nat) (text : List Char) :
    Passes rules level [.lexeme text] :=
  fun _ _ => rfl

theorem passes_lineBreak (rules : WriteRules) (level at_ : Nat) :
    Passes rules level [.lineBreak at_] :=
  fun _ _ => rfl

theorem Passes.append (hfirst : Passes rules level first) (hsecond : Passes rules level second) :
    Passes rules level (first ++ second) := by
  intro accepted rest
  rw [List.append_assoc, hfirst, hsecond, List.length_append, Nat.add_assoc]

theorem Stuck.append (hfirst : Stuck rules level first) (second : List Piece) :
    Stuck rules level (first ++ second) := by
  intro accepted rest
  rw [List.append_assoc]
  exact hfirst accepted (second ++ rest)

theorem Passes.append_stuck (hfirst : Passes rules level first)
    (hsecond : Stuck rules level second) : Stuck rules level (first ++ second) := by
  intro accepted rest
  rw [List.append_assoc, hfirst]
  exact hsecond _ rest

/-- What stands in brackets, with the brackets. -/
def bracketed (level : Nat) (opening closing : Char) (marker : Option String)
    (inner : List Piece) : List Piece :=
  .opening opening marker :: (inner ++ [.lineBreak level, .closing closing])

variable {opening closing : Char} {marker : Option String} {inner : List Piece}

theorem Passes.bracketed (hopen : rules.refusal? level marker = none)
    (hinner : Passes rules (level + 1) inner) :
    Passes rules level (bracketed level opening closing marker inner) := by
  intro accepted rest
  rw [WriteRules.bracketed, List.cons_append, List.append_assoc, acceptFrom, hopen]
  simp only
  rw [hinner, List.cons_append, List.cons_append, List.nil_append, acceptFrom, acceptFrom,
    Nat.add_sub_cancel, List.length_cons, List.length_append]
  congr 1
  simp only [List.length_cons, List.length_nil]
  omega

theorem Stuck.bracketed (hinner : Stuck rules (level + 1) inner) :
    Stuck rules level (bracketed level opening closing marker inner) := by
  intro accepted rest
  rw [WriteRules.bracketed, List.cons_append, List.append_assoc, acceptFrom]
  split
  · simp
  · exact hinner _ _

theorem stuck_bracketed_of_refusal {error : Error} (h : rules.refusal? level marker = some error) :
    Stuck rules level (bracketed level opening closing marker inner) := by
  intro accepted rest
  rw [WriteRules.bracketed, List.cons_append, acceptFrom, h]
  simp

theorem refusal?_eq_none_iff :
    rules.refusal? level marker = none ↔
      (rules.guarded = true → marker = none) ∧ level + 1 ≤ rules.maxDepth := by
  unfold refusal?
  rw [Nat.add_one_le_iff]
  cases rules.guarded with
  | false => simp
  | true => cases marker <;> simp

/-! ## Rows -/

/-- Rows one after another; `separator` stands in front of the first and a comma in front of the
others. -/
def separated (separator : List Piece) : List (List Piece) → List Piece
  | [] => []
  | row :: rows => separator ++ (row ++ separated [.comma] rows)

variable {rows : List (List Piece)} {separator : List Piece}

theorem passes_separated (hrows : ∀ row ∈ rows, Passes rules level row)
    (hseparator : Passes rules level separator) :
    Passes rules level (separated separator rows) := by
  induction rows generalizing separator with
  | nil => exact passes_nil rules level
  | cons row rows ih =>
      rw [List.forall_mem_cons] at hrows
      exact hseparator.append (hrows.1.append (ih hrows.2 (passes_lexeme rules level _)))

/-- The first row that gets stuck is where all of them do. -/
theorem stuck_separated (hrows : ∀ row ∈ rows, Passes rules level row ∨ Stuck rules level row)
    (hstuck : ∃ row ∈ rows, Stuck rules level row) (hseparator : Passes rules level separator) :
    Stuck rules level (separated separator rows) := by
  induction rows generalizing separator with
  | nil =>
      obtain ⟨row, hrow, -⟩ := hstuck
      simp at hrow
  | cons row rows ih =>
      rw [List.forall_mem_cons] at hrows
      refine hseparator.append_stuck ?_
      rcases hrows.1 with hpasses | hfirst
      · by_cases hlater : ∃ row ∈ rows, Stuck rules level row
        · exact hpasses.append_stuck (ih hrows.2 hlater (passes_lexeme rules level _))
        · obtain ⟨other, hother, hstuck⟩ := hstuck
          rcases List.mem_cons.mp hother with rfl | hother
          · exact hstuck.append _
          · exact absurd ⟨other, hother, hstuck⟩ hlater
      · exact hfirst.append _

/-! ## Complaints -/

/-- No opening bracket is marked as one that would be read back as something else. -/
def Unmarked (pieces : List Piece) : Prop := ∀ bracket marker, .opening bracket (some marker) ∉ pieces

theorem refusal?_none {error : Error} (h : rules.refusal? level none = some error) :
    error = .depthLimit rules.maxDepth := by
  unfold refusal? at h
  split at h
  · next hmarker => cases hmarker
  · split at h
    · injection h with h
      exact h.symm
    · cases h

/-- Over brackets without marks nothing but the depth is complained about. -/
theorem error_acceptFrom {pieces : List Piece} (hpieces : Unmarked pieces) {accepted level : Nat}
    {error : Error} (h : (rules.acceptFrom accepted level pieces).error = some error) :
    error = .depthLimit rules.maxDepth := by
  have hrest {piece : Piece} {rest : List Piece} (h : Unmarked (piece :: rest)) : Unmarked rest :=
    fun bracket marker hmem => h bracket marker (List.mem_cons_of_mem _ hmem)
  fun_induction acceptFrom rules accepted level pieces with
  | case1 => cases h
  | case2 accepted level bracket marker rest refused hrefused =>
      cases marker with
      | some marker => exact absurd List.mem_cons_self (hpieces bracket marker)
      | none =>
          injection h with h
          exact h ▸ refusal?_none hrefused
  | case3 _ _ _ _ _ _ ih | case4 _ _ _ _ ih | case5 _ _ _ _ ih | case6 _ _ _ _ ih =>
      exact ih (hrest hpieces) h

theorem unmarked_separated {separator : List Piece} {rows : List (List Piece)}
    (hseparator : Unmarked separator) (hrows : ∀ row ∈ rows, Unmarked row) :
    Unmarked (separated separator rows) := by
  induction rows generalizing separator with
  | nil => simp [Unmarked, separated]
  | cons row rows ih =>
      rw [List.forall_mem_cons] at hrows
      intro bracket marker hmem
      rw [separated, List.mem_append, List.mem_append] at hmem
      rcases hmem with hmem | hmem | hmem
      · exact hseparator bracket marker hmem
      · exact hrows.1 bracket marker hmem
      · exact ih (by simp [Unmarked, Piece.comma]) hrows.2 bracket marker hmem

theorem unmarked_bracketed {opening closing : Char} {inner : List Piece} (h : Unmarked inner) :
    Unmarked (bracketed level opening closing none inner) := by
  intro bracket marker hmem
  exact h bracket marker (by simpa [bracketed] using hmem)

end WriteRules

/-! ## Entries -/

namespace Entry

open WriteRules

variable {rules : WriteRules} {level : Nat}

def itemRow (level : Nat) (item : Entry) : List Piece := .lineBreak level :: item.layout level

def memberRow (level : Nat) (pair : String × Entry) : List Piece :=
  .lineBreak level :: .lexeme (JsonString.quote pair.1.toList ++ [':']) :: pair.2.layout level

theorem layoutItems_eq_separated (separator : List Piece) (items : List Entry) :
    layoutItems level separator items = separated separator (items.map (itemRow level)) := by
  induction items generalizing separator with
  | nil => rfl
  | cons item items ih => rw [layoutItems, ih]; rfl

theorem layoutMembers_eq_separated (separator : List Piece) (pairs : List (String × Entry)) :
    layoutMembers level separator pairs = separated separator (pairs.map (memberRow level)) := by
  induction pairs generalizing separator with
  | nil => rfl
  | cons pair pairs ih =>
      obtain ⟨key, value⟩ := pair
      rw [layoutMembers, ih]
      rfl

theorem layout_array {items : List Entry} (h : items ≠ []) :
    (array items).layout level =
      bracketed level '[' ']' none (separated [] (items.map (itemRow (level + 1)))) := by
  rw [layout, if_neg (by simpa using h), layoutItems_eq_separated]
  rfl

theorem layout_object {pairs : List (String × Entry)} (h : pairs ≠ []) :
    (object ⟨pairs⟩).layout level =
      bracketed level '\x7b' '\x7d' ((Object.wrapper? ⟨pairs⟩).bind fun wrapper => wrapper.1.marker?)
        (separated [] (pairs.map (memberRow (level + 1)))) := by
  rw [layout, if_neg (by simpa using h), layoutMembers_eq_separated]
  rfl

/-- Whether a writer with some rules can write an entry that begins at a level. -/
def Admitted (rules : WriteRules) (level : Nat) (e : Entry) : Prop :=
  (rules.guarded = true → e.Unambiguous) ∧ level + e.writingDepth ≤ rules.maxDepth

/-- The pieces of an entry pass or get stuck, as it is admitted or not. -/
structure Decided (rules : WriteRules) (level : Nat) (e : Entry) : Prop where
  passes : Admitted rules level e → Passes rules level (e.layout level)
  stuck : ¬ Admitted rules level e → Stuck rules level (e.layout level)

theorem Kind.marker?_of_ofMarker? {key : String} {kind : Kind} (h : ofMarker? key = some kind) :
    kind.marker? = some key := by
  simpa using List.find?_some h

/-- The only key of an object in the shape of a wrapper is the marker of its kind. -/
theorem keys_of_wrapper? {object : Object} {kind : Kind} {text : Option String}
    (h : object.wrapper? = some (kind, text)) :
    ∃ marker, object.keys = [marker] ∧ kind.marker? = some marker := by
  have hmarked {key : String} {shown : Option String} (hkeys : object.keys = [key])
      (hkind : (Kind.ofMarker? key).map (fun kind => (kind, shown)) = some (kind, text)) :
      ∃ marker, object.keys = [marker] ∧ kind.marker? = some marker := by
    obtain ⟨found, hfound, hsame⟩ := Option.map_eq_some_iff.mp hkind
    cases hsame
    exact ⟨key, hkeys, Kind.marker?_of_ofMarker? hfound⟩
  unfold Object.wrapper? at h
  split at h
  · next hpairs => exact hmarked (congrArg (List.map Prod.fst) hpairs) h
  · next hpairs => exact hmarked (congrArg (List.map Prod.fst) hpairs) h
  · cases h

theorem marker_wrapper?_eq_none_iff (object : Object) :
    (object.wrapper?.bind fun wrapper => wrapper.1.marker?) = none ↔ object.wrapper? = none := by
  cases h : object.wrapper? with
  | none => exact iff_of_true rfl rfl
  | some wrapper =>
      obtain ⟨marker, -, hmarker⟩ := keys_of_wrapper? h
      rw [Option.bind_some, hmarker]
      exact iff_of_false nofun nofun

theorem admitted_array_iff {items : List Entry} (h : items ≠ []) :
    Admitted rules level (.array items) ↔
      rules.refusal? level none = none ∧ ∀ item ∈ items, Admitted rules (level + 1) item := by
  have hdepth : level + (array items).writingDepth ≤ rules.maxDepth ↔
      level + 1 ≤ rules.maxDepth ∧
        ∀ item ∈ items, level + 1 + item.writingDepth ≤ rules.maxDepth :=
    level_add_depth_array_le_iff h
  rw [Admitted, hdepth, unambiguous_array_iff, refusal?_eq_none_iff]
  unfold Admitted
  grind

theorem admitted_object_iff {pairs : List (String × Entry)} (h : pairs ≠ []) :
    Admitted rules level (.object ⟨pairs⟩) ↔
      rules.refusal? level
          ((Object.wrapper? ⟨pairs⟩).bind fun wrapper => wrapper.1.marker?) = none ∧
        ∀ pair ∈ pairs, Admitted rules (level + 1) pair.2 := by
  have hdepth : level + (object ⟨pairs⟩).writingDepth ≤ rules.maxDepth ↔
      level + 1 ≤ rules.maxDepth ∧
        ∀ pair ∈ pairs, level + 1 + pair.2.writingDepth ≤ rules.maxDepth :=
    level_add_depth_object_le_iff h
  rw [Admitted, hdepth, unambiguous_object_iff, refusal?_eq_none_iff, marker_wrapper?_eq_none_iff]
  unfold Admitted
  grind

theorem Decided.of_lexeme {e : Entry} {text : List Char} (hlevel : level ≤ rules.maxDepth)
    (hlayout : e.layout level = [.lexeme text]) (hplain : e.Unambiguous)
    (hdepth : e.writingDepth = 0) : Decided rules level e where
  passes _ := by
    rw [hlayout]
    exact passes_lexeme rules level text
  stuck h := absurd ⟨fun _ => hplain, by omega⟩ h

/-- An entry whose pieces are rows in brackets, each row ending with an entry, is decided by its
opening bracket and its rows. -/
theorem Decided.of_rows {α : Type} {e : Entry} {parts : List α} {row lead : α → List Piece}
    {entry : α → Entry} {opening closing : Char} {marker : Option String}
    (hlayout : e.layout level =
      bracketed level opening closing marker (separated [] (parts.map row)))
    (hrow : ∀ part, row part = lead part ++ (entry part).layout (level + 1))
    (hlead : ∀ part, Passes rules (level + 1) (lead part))
    (hadmitted : Admitted rules level e ↔ rules.refusal? level marker = none ∧
      ∀ part ∈ parts, Admitted rules (level + 1) (entry part))
    (hparts : level + 1 ≤ rules.maxDepth →
      ∀ part ∈ parts, Decided rules (level + 1) (entry part)) : Decided rules level e := by
  cases hopen : rules.refusal? level marker with
  | some error =>
      refine ⟨fun h => ?_, fun _ => ?_⟩
      · rw [(hadmitted.mp h).1] at hopen
        cases hopen
      · rw [hlayout]
        exact stuck_bracketed_of_refusal hopen
  | none =>
      replace hparts := hparts (refusal?_eq_none_iff.mp hopen).2
      have hpasses : ∀ part ∈ parts, Admitted rules (level + 1) (entry part) →
          Passes rules (level + 1) (row part) := by
        intro part hpart h
        rw [hrow]
        exact (hlead part).append ((hparts part hpart).passes h)
      have hstuck : ∀ part ∈ parts, ¬ Admitted rules (level + 1) (entry part) →
          Stuck rules (level + 1) (row part) := by
        intro part hpart h
        rw [hrow]
        exact (hlead part).append_stuck ((hparts part hpart).stuck h)
      refine ⟨fun h => ?_, fun h => ?_⟩
      · rw [hlayout]
        refine Passes.bracketed hopen (passes_separated ?_ (passes_nil rules _))
        rw [List.forall_mem_map]
        exact fun part hpart => hpasses part hpart ((hadmitted.mp h).2 part hpart)
      · obtain ⟨part, hpart, hnot⟩ :
            ∃ part ∈ parts, ¬ Admitted rules (level + 1) (entry part) := by
          simpa [hadmitted, hopen] using h
        rw [hlayout]
        refine Stuck.bracketed (stuck_separated ?_ ?_ (passes_nil rules _))
        · rw [List.forall_mem_map]
          intro other hother
          by_cases hother' : Admitted rules (level + 1) (entry other)
          · exact Or.inl (hpasses other hother hother')
          · exact Or.inr (hstuck other hother hother')
        · exact ⟨row part, List.mem_map_of_mem hpart, hstuck part hpart hnot⟩

/-- A writer at a level that it may be at gets through an entry or gets stuck in it. -/
theorem decided (rules : WriteRules) (e : Entry) :
    ∀ level ≤ rules.maxDepth, Decided rules level e := by
  induction e using byShape with
  | null | boolean | number | string | binary | date | time | timestamp =>
      exact fun level hlevel =>
        .of_lexeme hlevel rfl ((everywhere_leaf_iff (by simp) (by simp)).mpr trivial) rfl
  | array items ih =>
      intro level hlevel
      by_cases hitems : items = []
      · subst hitems
        exact .of_lexeme hlevel rfl (unambiguous_array_iff.mpr (by simp)) rfl
      · exact .of_rows (layout_array hitems) (fun _ => rfl)
          (fun _ => passes_lineBreak rules _ _) (admitted_array_iff hitems)
          fun hdeeper item hitem => ih item hitem (level + 1) hdeeper
  | object pairs ih =>
      intro level hlevel
      by_cases hpairs : pairs = []
      · subst hpairs
        exact .of_lexeme hlevel rfl (unambiguous_object_iff.mpr ⟨rfl, by simp⟩) rfl
      · exact .of_rows (layout_object hpairs) (fun _ => rfl)
          (fun _ => (passes_lineBreak rules _ _).append (passes_lexeme rules _ _))
          (admitted_object_iff hpairs) fun hdeeper pair hpair => ih pair hpair (level + 1) hdeeper

/-- Complaints come from the pieces and the limits, whatever the style. -/
theorem write_eq_error_iff {e : Entry} {options : WriterOptions} {error : Error} :
    e.write options = .error error ↔
      (WriteRules.accept ⟨options.maxDepth, true⟩ 0 (e.layout 0)).error = some error := by
  rw [write, Writer.write]
  simp only [Writer.rules]
  cases (WriteRules.accept ⟨options.maxDepth, true⟩ 0 (e.layout 0)).error <;> simp

/-- Writing gives the whole layout, and gives it just when the entry is admitted. -/
theorem write_eq_ok_iff {e : Entry} {options : WriterOptions} {text : String} :
    e.write options = .ok text ↔
      e.Unambiguous ∧ e.writingDepth ≤ options.maxDepth ∧
        text = String.ofList (renderPieces options (e.layout 0)) := by
  have hdecided := decided ⟨options.maxDepth, true⟩ e 0 (Nat.zero_le _)
  have hadmitted : Admitted ⟨options.maxDepth, true⟩ 0 e ↔
      e.Unambiguous ∧ e.writingDepth ≤ options.maxDepth := by
    simp [Admitted]
  by_cases h : Admitted ⟨options.maxDepth, true⟩ 0 e
  · have hpasses : WriteRules.accept ⟨options.maxDepth, true⟩ 0 (e.layout 0) =
        ⟨(e.layout 0).length, 0, none⟩ := by
      have := hdecided.passes h 0 []
      rwa [List.append_nil, Nat.zero_add] at this
    rw [write, Writer.write]
    simp only [Writer.rules, hpasses, List.take_length, List.nil_append, Except.ok.injEq]
    rw [← and_assoc, ← hadmitted]
    exact ⟨fun htext => ⟨h, htext.symm⟩, fun htext => htext.2.symm⟩
  · have hstuck : (WriteRules.accept ⟨options.maxDepth, true⟩ 0 (e.layout 0)).error ≠ none := by
      have := hdecided.stuck h 0 []
      rwa [List.append_nil] at this
    obtain ⟨error, herror⟩ := Option.ne_none_iff_exists'.mp hstuck
    rw [← and_assoc, ← hadmitted, write_eq_error_iff.mpr herror]
    exact iff_of_false nofun fun hwrite => h hwrite.1

/-! ## Complaints about entries -/

theorem Unambiguous.unmarked_layout {e : Entry} (h : e.Unambiguous) :
    ∀ level, Unmarked (e.layout level) := by
  induction e using byShape with
  | null | boolean | number | string | binary | date | time | timestamp =>
      intro level
      simp [Unmarked, layout, wrapperPieces]
  | array items ih =>
      intro level
      by_cases hitems : items = []
      · subst hitems
        simp [Unmarked, layout]
      · rw [layout_array hitems]
        refine unmarked_bracketed (unmarked_separated (by simp [Unmarked]) ?_)
        rw [List.forall_mem_map]
        intro item hitem
        have := ih item hitem (unambiguous_array_iff.mp h item hitem) (level + 1)
        simpa [Unmarked, itemRow] using this
  | object pairs ih =>
      intro level
      by_cases hpairs : pairs = []
      · subst hpairs
        simp [Unmarked, layout]
      · obtain ⟨hplain, hvalues⟩ := unambiguous_object_iff.mp h
        rw [layout_object hpairs, (marker_wrapper?_eq_none_iff _).mpr hplain]
        refine unmarked_bracketed (unmarked_separated (by simp [Unmarked]) ?_)
        rw [List.forall_mem_map]
        intro pair hpair
        have := ih pair hpair (hvalues pair hpair) (level + 1)
        simpa [Unmarked, memberRow] using this

/-- Of an entry without objects in disguise a writer complains about the depth, and about nothing
else. -/
theorem Unambiguous.error_write {e : Entry} (hplain : e.Unambiguous) {options : WriterOptions}
    {error : Error} (h : e.write options = .error error) : error = .depthLimit options.maxDepth :=
  error_acceptFrom (hplain.unmarked_layout 0) (write_eq_error_iff.mp h)

theorem Unambiguous.write_eq_depthLimit_iff {e : Entry} (hplain : e.Unambiguous)
    {options : WriterOptions} : e.write options = .error (.depthLimit options.maxDepth) ↔
      options.maxDepth < e.writingDepth := by
  rw [← Nat.not_le]
  constructor
  · intro h hdepth
    rw [write_eq_ok_iff.mpr ⟨hplain, hdepth, rfl⟩] at h
    cases h
  · intro hdepth
    cases hwrite : e.write options with
    | error error => rw [hplain.error_write hwrite]
    | ok text => exact absurd (write_eq_ok_iff.mp hwrite).2.1 hdepth

end Entry

end ExtendedJson
