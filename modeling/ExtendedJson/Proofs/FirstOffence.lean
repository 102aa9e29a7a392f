import ExtendedJson.Proofs.Recognition

/-!
# Why a writer gives up

A writer makes two complaints, about what would be read back as something else and about what nests
too deep, and of the two it makes the one that it meets first. Which that is can be said without a
writer: the arrays and objects that are not empty are listed as the text has them, each before those
inside of it, with the number of those around it, and the first of them that offends decides.

The pieces of an entry answer for themselves, whatever stands behind them: they pass, or they end in
one complaint. The answers of parts are put together from left to right, as the list of containers
is, so one induction over entries shows that the two agree.
-/

namespace ExtendedJson

section Lists

variable {α β γ : Type}

theorem findSome?_cons_eq_or (f : α → Option β) (a : α) (as : List α) :
    (a :: as).findSome? f = (f a).or (as.findSome? f) := by
  rw [List.findSome?_cons]
  cases f a <;> rfl

theorem findSome?_flatMap (f : β → Option γ) (g : α → List β) (as : List α) :
    (as.flatMap g).findSome? f = as.findSome? fun a => (g a).findSome? f := by
  induction as with
  | nil => rfl
  | cons a as ih => rw [List.flatMap_cons, List.findSome?_append, findSome?_cons_eq_or, ih]

end Lists

/-! ## Answers of pieces -/

namespace WriteRules

variable {rules : WriteRules} {level : Nat} {first second inner : List Piece}
  {answer answer' : Option Error}

/-- What taking some pieces comes to, whatever stands behind them: a complaint, or none and they are
all taken. -/
def Answers (rules : WriteRules) (level : Nat) (pieces : List Piece) : Option Error → Prop
  | none => Passes rules level pieces
  | some error => ∀ accepted rest,
      (rules.acceptFrom accepted level (pieces ++ rest)).error = some error

/-- Behind a complaint nothing is looked at. -/
theorem Answers.append (hfirst : Answers rules level first answer)
    (hsecond : Answers rules level second answer') :
    Answers rules level (first ++ second) (answer.or answer') := by
  cases answer with
  | none =>
      cases answer' with
      | none => exact Passes.append hfirst hsecond
      | some error =>
          intro accepted rest
          rw [List.append_assoc, hfirst]
          exact hsecond _ rest
  | some error =>
      intro accepted rest
      rw [List.append_assoc]
      exact hfirst accepted (second ++ rest)

theorem Passes.append_answers (hfirst : Passes rules level first)
    (hsecond : Answers rules level second answer) :
    Answers rules level (first ++ second) answer := by
  have hfirst : Answers rules level first none := hfirst
  simpa using hfirst.append hsecond

/-- The opening bracket is answered for before what stands behind it. -/
theorem Answers.bracketed (hinner : Answers rules (level + 1) inner answer) (opening closing : Char)
    (marker : Option String) : Answers rules level (bracketed level opening closing marker inner)
      ((rules.refusal? level marker).or answer) := by
  cases hopen : rules.refusal? level marker with
  | some error =>
      intro accepted rest
      rw [WriteRules.bracketed, List.cons_append, acceptFrom, hopen]
  | none =>
      cases answer with
      | none => exact Passes.bracketed hopen hinner
      | some error =>
          intro accepted rest
          rw [WriteRules.bracketed, List.cons_append, List.append_assoc, acceptFrom, hopen]
          exact hinner _ _

theorem answers_separated {α : Type} {row : α → List Piece} {answer : α → Option Error}
    {parts : List α} (hrows : ∀ part ∈ parts, Answers rules level (row part) (answer part)) :
    ∀ {separator : List Piece}, Passes rules level separator →
      Answers rules level (separated separator (parts.map row)) (parts.findSome? answer) := by
  induction parts with
  | nil => exact fun _ => passes_nil rules level
  | cons part parts ih =>
      intro separator hseparator
      rw [List.forall_mem_cons] at hrows
      rw [findSome?_cons_eq_or]
      exact hseparator.append_answers
        (hrows.1.append (ih hrows.2 (passes_lexeme rules level _)))

end WriteRules

/-! ## Containers -/

/-- An array or an object that is not empty, and how many of them are around it. -/
structure Container where
  around : Nat
  entry : Entry

namespace Entry

open WriteRules

mutual

/-- The arrays and objects of an entry that are not empty, each before those inside of it, when so
many are around the entry. -/
def containers (around : Nat) : Entry → List Container
  | .array items =>
    if items.isEmpty then []
    else ⟨around, .array items⟩ :: containersOfItems (around + 1) items
  | .object ⟨pairs⟩ =>
    if pairs.isEmpty then []
    else ⟨around, .object ⟨pairs⟩⟩ :: containersOfMembers (around + 1) pairs
  | _ => []

def containersOfItems (around : Nat) : List Entry → List Container
  | [] => []
  | item :: items => containers around item ++ containersOfItems around items

def containersOfMembers (around : Nat) : List (String × Entry) → List Container
  | [] => []
  | (_, value) :: pairs => containers around value ++ containersOfMembers around pairs

end

theorem containers_array {items : List Entry} (h : items ≠ []) (around : Nat) :
    (array items).containers around =
      ⟨around, .array items⟩ :: items.flatMap (containers (around + 1)) := by
  have hitems (items : List Entry) (around : Nat) :
      containersOfItems around items = items.flatMap (containers around) := by
    induction items with
    | nil => rfl
    | cons item items ih => rw [containersOfItems, ih, List.flatMap_cons]
  rw [containers, if_neg (by simpa using h), hitems]

theorem containers_object {pairs : List (String × Entry)} (h : pairs ≠ []) (around : Nat) :
    (object ⟨pairs⟩).containers around =
      ⟨around, .object ⟨pairs⟩⟩ :: pairs.flatMap fun pair => containers (around + 1) pair.2 := by
  have hpairs (pairs : List (String × Entry)) (around : Nat) :
      containersOfMembers around pairs = pairs.flatMap fun pair => containers around pair.2 := by
    induction pairs with
    | nil => rfl
    | cons pair pairs ih => rw [containersOfMembers, ih, List.flatMap_cons]
  rw [containers, if_neg (by simpa using h), hpairs]

/-- The marker under which an entry would be read back as something else. -/
def disguise? : Entry → Option String
  | .object members => (Object.wrapper? members).bind fun wrapper => wrapper.1.marker?
  | _ => none

def offence? (rules : WriteRules) (c : Container) : Option Error :=
  rules.refusal? c.around c.entry.disguise?

/-- An entry is complained about for the first of its containers that is. -/
theorem answers_layout (rules : WriteRules) (e : Entry) : ∀ level,
    Answers rules level (e.layout level) ((e.containers level).findSome? (offence? rules)) := by
  induction e using byShape with
  | null | boolean | number | string | binary | date | time | timestamp =>
      exact fun level => passes_lexeme rules level _
  | array items ih =>
      intro level
      by_cases hitems : items = []
      · subst hitems
        exact passes_lexeme rules level _
      · rw [containers_array hitems, layout_array hitems, findSome?_cons_eq_or, findSome?_flatMap]
        refine (answers_separated (fun item hitem => ?_) (passes_nil rules _)).bracketed _ _ _
        exact (passes_lineBreak rules _ _).append_answers (ih item hitem (level + 1))
  | object pairs ih =>
      intro level
      by_cases hpairs : pairs = []
      · subst hpairs
        exact passes_lexeme rules level _
      · rw [containers_object hpairs, layout_object hpairs, findSome?_cons_eq_or, findSome?_flatMap]
        refine (answers_separated (fun pair hpair => ?_) (passes_nil rules _)).bracketed _ _ _
        exact (passes_lineBreak rules _ _).append_answers
          ((passes_lexeme rules _ _).append_answers (ih pair hpair (level + 1)))

/-! ## Offences -/

/-- An object that would be read back as the extended entry of a marker. -/
def Disguised (marker : String) (e : Entry) : Prop :=
  ∃ members : Object, e = .object members ∧ members.WrapperShaped ∧ members.keys = [marker]

theorem disguise?_eq_some_iff {e : Entry} {marker : String} :
    e.disguise? = some marker ↔ e.Disguised marker := by
  cases e with
  | object members =>
      have hdisguised : (object members).Disguised marker ↔
          Object.WrapperShaped members ∧ members.keys = [marker] := by
        simp [Disguised]
      rw [hdisguised, disguise?]
      cases h : Object.wrapper? members with
      | none => exact iff_of_false nofun fun hboth => Object.wrapper?_eq_none_iff.mp h hboth.1
      | some wrapper =>
          obtain ⟨only, hkeys, hmarker⟩ := keys_of_wrapper? h
          have hshaped : Object.WrapperShaped members := by
            by_contra hno
            rw [Object.wrapper?_eq_none_iff.mpr hno] at h
            cases h
          rw [Option.bind_some, hmarker, hkeys, and_iff_right hshaped]
          simp
  | _ => exact iff_of_false nofun nofun

end Entry

namespace Container

def Offends (limit : Nat) (c : Container) : Prop :=
  (∃ marker, c.entry.Disguised marker) ∨ limit ≤ c.around

/-- The first container of an entry that must not be written. -/
def FirstOffence (limit : Nat) (e : Entry) (c : Container) : Prop :=
  ∃ before behind, e.containers 0 = before ++ c :: behind ∧ c.Offends limit ∧
    ∀ other ∈ before, ¬ other.Offends limit

end Container

namespace Entry

variable {limit : Nat} {c : Container}

theorem offence?_of_disguised {marker : String} (h : c.entry.Disguised marker) :
    offence? ⟨limit, true⟩ c = some (.ambiguousObject marker) := by
  rw [offence?, disguise?_eq_some_iff.mpr h]
  rfl

theorem offence?_of_not_disguised (h : ∀ marker, ¬ c.entry.Disguised marker) :
    offence? ⟨limit, true⟩ c = if limit ≤ c.around then some (.depthLimit limit) else none := by
  have hnone : c.entry.disguise? = none :=
    Option.eq_none_iff_forall_ne_some.mpr fun marker hmarker =>
      h marker (disguise?_eq_some_iff.mp hmarker)
  rw [offence?, hnone]
  rfl

theorem offence?_eq_none_iff : offence? ⟨limit, true⟩ c = none ↔ ¬ c.Offends limit := by
  by_cases h : ∃ marker, c.entry.Disguised marker
  · obtain ⟨marker, hmarker⟩ := h
    rw [offence?_of_disguised hmarker]
    exact iff_of_false nofun fun hnot => hnot (Or.inl ⟨marker, hmarker⟩)
  · rw [offence?_of_not_disguised (not_exists.mp h), Container.Offends, or_iff_right h]
    split <;> simp [*]

theorem write_eq_error_iff_offence {e : Entry} {options : WriterOptions} {error : Error} :
    e.write options = .error error ↔
      (e.containers 0).findSome? (offence? ⟨options.maxDepth, true⟩) = some error := by
  have hanswers := answers_layout ⟨options.maxDepth, true⟩ e 0
  rw [write_eq_error_iff, WriteRules.accept]
  cases h : (e.containers 0).findSome? (offence? ⟨options.maxDepth, true⟩) with
  | none =>
      rw [h] at hanswers
      have hpasses := hanswers 0 []
      rw [List.append_nil] at hpasses
      rw [hpasses]
      rfl
  | some error =>
      rw [h] at hanswers
      have hrefused := hanswers 0 []
      rw [List.append_nil] at hrefused
      rw [hrefused]

/-- Writing ends at the first array or object, in the order of the text, that would be read back as
something else or is too deep, and of these complaints about one object it makes the former. Without
such a container it succeeds. -/
theorem write_ends_at_first_offence (e : Entry) (options : WriterOptions) :
    ((∃ text, e.write options = .ok text) ↔
      ∀ c ∈ e.containers 0, ¬ c.Offends options.maxDepth) ∧
    ∀ c : Container, c.FirstOffence options.maxDepth e →
      (∀ marker, c.entry.Disguised marker →
        e.write options = .error (.ambiguousObject marker)) ∧
      ((∀ marker, ¬ c.entry.Disguised marker) →
        e.write options = .error (.depthLimit options.maxDepth)) := by
  constructor
  · simp only [← offence?_eq_none_iff]
    rw [← List.findSome?_eq_none_iff]
    cases hwrite : e.write options with
    | ok text =>
        refine iff_of_true ⟨text, rfl⟩ (Option.eq_none_iff_forall_ne_some.mpr fun error herror => ?_)
        rw [write_eq_error_iff_offence.mpr herror] at hwrite
        cases hwrite
    | error error =>
        rw [write_eq_error_iff_offence.mp hwrite]
        exact iff_of_false nofun nofun
  · rintro c ⟨before, behind, hsplit, hoffends, hbefore⟩
    have hfirst {error : Error} (h : offence? ⟨options.maxDepth, true⟩ c = some error) :
        e.write options = .error error :=
      write_eq_error_iff_offence.mpr (List.findSome?_eq_some_iff.mpr
        ⟨before, c, behind, hsplit, h, fun other hother =>
          offence?_eq_none_iff.mpr (hbefore other hother)⟩)
    refine ⟨fun marker hmarker => hfirst (offence?_of_disguised hmarker), fun hplain => hfirst ?_⟩
    have hdeep : options.maxDepth ≤ c.around :=
      hoffends.resolve_left fun ⟨marker, hmarker⟩ => hplain marker hmarker
    rw [offence?_of_not_disguised hplain, if_pos hdeep]

/-- With one level the inner array is what offends first, and with two the object inside of it. -/
example :
    let e : Entry := array [array [object ⟨[("%dt%", .null)]⟩]]
    e.write { maxDepth := 1 } = .error (.depthLimit 1) ∧
      e.write { maxDepth := 2 } = .error (.ambiguousObject "%dt%") :=
  ⟨rfl, rfl⟩

end Entry

end ExtendedJson
