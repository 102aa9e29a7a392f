import ExtendedJson.Proofs.EditsInPlace

/-!
# Edits are atomic and local

An edit at the end of a path is a walk to its target, the edit itself, and the walk back with the new
target in hand. `Entry.withAt` is the walk back on its own: the document with another entry at the end
of a path. At each entry on the way one step in is written and the others are not, so everything off
the path is found as before, and every entry on the path keeps its kind and the steps that lead on from
it. What the target is changed to matters for one thing only, which is that the edit keeps its kind.
-/

namespace ExtendedJson

namespace Entry

variable {entry inner target new : Entry} {step other : PathStep} {path : List PathStep}

/-! ## One step in -/

/-- The steps that lead on from an entry, in its order. -/
def steps : Entry → List PathStep
  | array items => (List.range items.length).map .index
  | object members => members.keys.map .key
  | _ => []

theorem child_eq_ok_iff :
    entry.child step = .ok inner ↔
      (∃ members key, entry = .object members ∧ step = .key key ∧
        members.get? key = some inner) ∨
      ∃ items index, entry = .array items ∧ step = .index index ∧
        items[index]? = some inner := by
  cases step with
  | key key => cases entry <;> simp [child, asObject, Object.get_eq_ok_iff]
  | index index => cases entry <;> simp [child, asArray, Items.get_eq_ok_iff]

theorem child_withChild_self (h : entry.child step = .ok inner) :
    (entry.withChild step new).child step = .ok new := by
  rcases child_eq_ok_iff.mp h with ⟨members, key, rfl, rfl, hget⟩ | ⟨items, index, rfl, rfl, hget⟩
  · exact Object.get_eq_ok_iff.mpr (by rw [Members.get?_put, if_pos rfl])
  · obtain ⟨hindex, -⟩ := List.getElem?_eq_some_iff.mp hget
    exact Items.get_eq_ok_iff.mpr (List.getElem?_set_self hindex)

theorem child_withChild_of_ne (h : entry.child step = .ok inner) (hne : other ≠ step) :
    (entry.withChild step new).child other = entry.child other := by
  rcases child_eq_ok_iff.mp h with ⟨members, key, rfl, rfl, -⟩ | ⟨items, index, rfl, rfl, -⟩
  · cases other with
    | key other =>
        have hkey : other ≠ key := fun heq => hne (congrArg _ heq)
        change Object.get (members.put key new) other = Object.get members other
        rw [Object.get, Object.get, Members.get?_put, if_neg hkey]
    | index => rfl
  · cases other with
    | key => rfl
    | index other =>
        have hindex : index ≠ other := fun heq => hne (congrArg _ heq.symm)
        change Items.get (items.set index new) other = Items.get items other
        rw [Items.get, Items.get, List.getElem?_set_ne hindex, Items.outOfBounds, List.length_set,
          Items.outOfBounds]

theorem kind_withChild (entry : Entry) (step : PathStep) (new : Entry) :
    (entry.withChild step new).kind = entry.kind := by
  cases step <;> cases entry <;> rfl

theorem steps_withChild (h : entry.child step = .ok inner) :
    (entry.withChild step new).steps = entry.steps := by
  rcases child_eq_ok_iff.mp h with ⟨members, key, rfl, rfl, hget⟩ | ⟨items, index, rfl, rfl, -⟩
  · have hmem : key ∈ members.keys := Members.mem_keys_iff.mpr (by rw [hget]; rfl)
    rw [withChild, steps, steps, members.keys_put, if_pos hmem]
  · rw [withChild, steps, steps, List.length_set]

/-! ## The end of a path -/

/-- The entry with another one at the end of a path, if there is something. -/
def withAt (entry : Entry) : List PathStep → Entry → Entry
  | [], new => new
  | step :: path, new =>
    match entry.child step with
    | .error _ => entry
    | .ok inner => entry.withChild step (inner.withAt path new)

theorem descend_cons_of_child (h : entry.child step = .ok inner) (path : List PathStep) :
    entry.descend (step :: path) = inner.descend path := by
  rw [descend, h]

theorem withAt_cons_of_child (h : entry.child step = .ok inner) (path : List PathStep)
    (new : Entry) : entry.withAt (step :: path) new = entry.withChild step (inner.withAt path new) := by
  rw [withAt, h]

theorem descend_cons_eq_ok_iff :
    entry.descend (step :: path) = .ok target ↔
      ∃ inner, entry.child step = .ok inner ∧ inner.descend path = .ok target := by
  rw [descend]
  cases entry.child step <;> simp

/-- An edit is its target's, with the new target where the old one was. -/
theorem changeAt_eq {α : Type} (change : Entry → Except Error (α × Entry)) (path : List PathStep)
    (entry : Entry) :
    changeAt change path entry =
      match entry.descend path with
      | .error error => .error error
      | .ok target => (change target).map fun told => (told.1, entry.withAt path told.2) := by
  induction path generalizing entry with
  | nil =>
      simp only [changeAt, descend]
      cases change entry <;> rfl
  | cons step path ih =>
      rw [changeAt, descend]
      cases hchild : entry.child step with
      | error error => rfl
      | ok inner =>
          simp only [ih inner, withAt_cons_of_child hchild]
          cases inner.descend path with
          | error error => rfl
          | ok target =>
              simp only
              cases change target <;> rfl

theorem descend_withAt_self (h : entry.descend path = .ok target) :
    (entry.withAt path new).descend path = .ok new := by
  induction path generalizing entry with
  | nil => rfl
  | cons step path ih =>
      obtain ⟨inner, hchild, hinner⟩ := descend_cons_eq_ok_iff.mp h
      rw [withAt_cons_of_child hchild, descend_cons_of_child (child_withChild_self hchild)]
      exact ih hinner

/-- Off the path everything is found as before. -/
theorem descend_withAt_of_apart (h : entry.descend path = .ok target) {off : List PathStep}
    (hpath : ¬ path <+: off) (hoff : ¬ off <+: path) :
    (entry.withAt path new).descend off = entry.descend off := by
  induction path generalizing entry off with
  | nil => exact absurd List.nil_prefix hpath
  | cons step path ih =>
      obtain ⟨inner, hchild, hinner⟩ := descend_cons_eq_ok_iff.mp h
      cases off with
      | nil => exact absurd List.nil_prefix hoff
      | cons other off =>
          rw [withAt_cons_of_child hchild]
          by_cases hstep : other = step
          · subst hstep
            rw [List.cons_prefix_cons] at hpath hoff
            rw [descend_cons_of_child (child_withChild_self hchild), descend_cons_of_child hchild]
            exact ih hinner (fun hprefix => hpath ⟨rfl, hprefix⟩)
              fun hprefix => hoff ⟨rfl, hprefix⟩
          · rw [descend, descend, child_withChild_of_ne hchild hstep]

/-- Entries on the path are there as before, with their kinds, and above the target with the same steps
that lead on. -/
theorem descend_withAt_of_above (h : entry.descend path = .ok target)
    (hkind : new.kind = target.kind) {above : List PathStep} (habove : above <+: path) :
    ∃ was is, entry.descend above = .ok was ∧ (entry.withAt path new).descend above = .ok is ∧
      is.kind = was.kind ∧ (above ≠ path → is.steps = was.steps) := by
  induction above generalizing entry path with
  | nil =>
      cases path with
      | nil =>
          refine ⟨entry, new, rfl, rfl, ?_, fun hne => absurd rfl hne⟩
          rw [hkind, Except.ok.inj h]
      | cons step path =>
          obtain ⟨inner, hchild, -⟩ := descend_cons_eq_ok_iff.mp h
          refine ⟨entry, _, rfl, rfl, ?_, fun _ => ?_⟩
          · rw [withAt_cons_of_child hchild, kind_withChild]
          · rw [withAt_cons_of_child hchild, steps_withChild hchild]
  | cons step above ih =>
      obtain ⟨path, rfl, hrest⟩ : ∃ rest, path = step :: rest ∧ above <+: rest := by
        cases path with
        | nil => simp at habove
        | cons other path =>
            obtain ⟨rfl, hrest⟩ := List.cons_prefix_cons.mp habove
            exact ⟨path, rfl, hrest⟩
      obtain ⟨inner, hchild, hinner⟩ := descend_cons_eq_ok_iff.mp h
      rw [withAt_cons_of_child hchild, descend_cons_of_child hchild,
        descend_cons_of_child (child_withChild_self hchild)]
      obtain ⟨was, is, hwas, his, hsame, hsteps⟩ := ih hinner hrest
      exact ⟨was, is, hwas, his, hsame, fun hne => hsteps fun heq => hne (heq ▸ rfl)⟩

/-! ## Edits -/

theorem kind_of_changeObject {change : Object → Except Error (Option Entry × Object)}
    {told : Option Entry} (h : target.changeObject change = .ok (told, new)) :
    new.kind = target.kind := by
  cases target with
  | object members =>
      simp only [changeObject, asObject] at h
      cases hchange : change members <;> simp only [hchange] at h <;> cases h
      rfl
  | _ => cases h

theorem kind_of_changeArray {change : List Entry → Except Error (Option Entry × List Entry)}
    {told : Option Entry} (h : target.changeArray change = .ok (told, new)) :
    new.kind = target.kind := by
  cases target with
  | array items =>
      simp only [changeArray, asArray] at h
      cases hchange : change items <;> simp only [hchange] at h <;> cases h
      rfl
  | _ => cases h

theorem kind_of_edit {change : Edit} {told : Option Entry} (h : target.edit change = .ok (told, new)) :
    new.kind = target.kind := by
  cases change with
  | replace other =>
      rw [edit, replace] at h
      split at h
      · next hkind =>
          cases h
          exact hkind.symm
      · cases h
  | put | putDouble | removeKey | append | extend =>
      rw [edit] at h
      exact kind_of_changeObject h
  | add | addDouble | insert | set | removeIndex | addAll =>
      rw [edit] at h
      exact kind_of_changeArray h

/-- How an edit ends: the walk fails, or the edit fails at its target, or it changes its target. -/
theorem editAt_cases (path : List PathStep) (change : Edit) (document : Entry) :
    (∃ error, editAt path change document = .error error ∧
      (document.descend path = .error error ∨
        ∃ target, document.descend path = .ok target ∧ target.edit change = .error error)) ∨
    ∃ target told new, document.descend path = .ok target ∧ target.edit change = .ok (told, new) ∧
      editAt path change document = .ok (told, document.withAt path new) := by
  rw [editAt, changeAt_eq]
  cases hdescend : document.descend path with
  | error error => exact Or.inl ⟨error, rfl, Or.inl rfl⟩
  | ok target =>
      simp only
      cases hedit : target.edit change with
      | error error => exact Or.inl ⟨error, rfl, Or.inr ⟨target, rfl, hedit⟩⟩
      | ok told => exact Or.inr ⟨target, told.1, told.2, rfl, hedit, rfl⟩

/-- A change at the end of a path that shows nowhere else. What is off the path is found as before. What
is on it has kept its kind and, above the target, the steps that lead on from it. -/
structure ChangesOnlyAt (path : List PathStep) (before after : Entry) : Prop where
  off : ∀ off, ¬ path <+: off → ¬ off <+: path → after.descend off = before.descend off
  above : ∀ above, above <+: path → ∃ was is, before.descend above = .ok was ∧
    after.descend above = .ok is ∧ is.kind = was.kind ∧ (above ≠ path → is.steps = was.steps)

theorem changesOnlyAt_withAt (h : entry.descend path = .ok target) (hkind : new.kind = target.kind) :
    ChangesOnlyAt path entry (entry.withAt path new) where
  off _ hpath hoff := descend_withAt_of_apart h hpath hoff
  above _ habove := descend_withAt_of_above h hkind habove

theorem ChangesOnlyAt.kind_eq {before after : Entry} (h : ChangesOnlyAt path before after) :
    after.kind = before.kind := by
  obtain ⟨was, is, hwas, his, hkind, -⟩ := h.above [] List.nil_prefix
  cases hwas
  cases his
  exact hkind

theorem kind_runOn_editAt (path : List PathStep) (change : Edit) (document : Entry) :
    ((InPlace.editAt path change).runOn document).2.kind = document.kind := by
  rw [InPlace.does_editAt path change document]
  rcases editAt_cases path change document with
    ⟨error, hfailed, -⟩ | ⟨target, told, new, hdescend, hedit, hdone⟩
  · rw [hfailed, InPlace.settle]
  · rw [hdone, InPlace.settle]
    exact (changesOnlyAt_withAt hdescend (kind_of_edit hedit)).kind_eq

theorem kind_editedInPlace (document : Entry) (edits : List (List PathStep × Edit)) :
    (document.editedInPlace edits).kind = document.kind := by
  induction edits generalizing document with
  | nil => rfl
  | cons first edits ih => exact (ih _).trans (kind_runOn_editAt first.1 first.2 document)

/-- An edit in place fails when the walk to its target or the edit of the target does, and then leaves
the document as it was. Otherwise the target is what the edit made of it, and nothing else shows the
change. So whatever edits a document goes through, its kind stays. -/
theorem edits_atomic_and_local :
    (∀ (document : Entry) (path : List PathStep) (change : Edit),
      let ran := (InPlace.editAt path change).runOn document
      ran = InPlace.settle document (document.editAt path change) ∧
      (∀ error, ran.1 = .error error ↔ document.descend path = .error error ∨
        ∃ target, document.descend path = .ok target ∧ target.edit change = .error error) ∧
      (∀ error, ran.1 = .error error → ran.2 = document) ∧
      ∀ told, ran.1 = .ok told →
        (∃ target new, document.descend path = .ok target ∧
          target.edit change = .ok (told, new) ∧ ran.2.descend path = .ok new) ∧
        ChangesOnlyAt path document ran.2) ∧
    ∀ (document : Entry) (edits : List (List PathStep × Edit)),
      (document.editedInPlace edits).kind = document.kind := by
  refine ⟨fun document path change => ?_, kind_editedInPlace⟩
  intro ran
  have hran : ran = InPlace.settle document (document.editAt path change) :=
    InPlace.does_editAt path change document
  refine ⟨hran, ?_⟩
  rw [hran]
  rcases editAt_cases path change document with
    ⟨error, hfailed, hcause⟩ | ⟨target, told, new, hdescend, hedit, hdone⟩
  · rw [hfailed, InPlace.settle]
    refine ⟨fun other => ?_, fun _ _ => rfl, fun _ h => by cases h⟩
    rw [Except.error.injEq]
    rcases hcause with hwalk | ⟨target, hdescend, hedit⟩
    · simp [hwalk]
    · simp [hdescend, hedit]
  · rw [hdone, InPlace.settle]
    refine ⟨fun error => ?_, fun _ h => (by cases h), fun other h => ?_⟩
    · simp [hdescend, hedit]
    · cases h
      exact ⟨⟨target, new, hdescend, hedit, descend_withAt_self hdescend⟩,
        changesOnlyAt_withAt hdescend (kind_of_edit hedit)⟩

/-- A member of an object in an array in an object gets another kind, and a double that is no number is
refused at the same place. -/
theorem edits_atomic_and_local_nested :
    let document : Entry := .object ⟨[("a", .array [.number ⟨1, 0⟩, .object ⟨[("b", .null)]⟩]),
      ("c", .boolean true)]⟩
    let path : List PathStep := [.key "a", .index 1]
    let changed : Entry := .object ⟨[("a", .array [.number ⟨1, 0⟩, .object ⟨[("b", .array [])]⟩]),
      ("c", .boolean true)]⟩
    ((InPlace.editAt path (.put "b" (.array []))).runOn document = (.ok (some .null), changed) ∧
        ChangesOnlyAt path document changed) ∧
      (¬ path <+: [.key "a", .index 0] ∧ ¬ [.key "a", .index 0] <+: path ∧
        changed.descend [.key "a", .index 0] = document.descend [.key "a", .index 0]) ∧
      ((InPlace.editAt path (.putDouble "b" Binary64.nan)).runOn document).1 =
          .error (.nonFinite Binary64.nan) ∧
        ((InPlace.editAt path (.putDouble "b" Binary64.nan)).runOn document).2 = document := by
  intro document path changed
  have hdone : (InPlace.editAt path (.put "b" (.array []))).runOn document =
      (.ok (some .null), changed) := rfl
  have hfailed : ((InPlace.editAt path (.putDouble "b" Binary64.nan)).runOn document).1 =
      .error (.nonFinite Binary64.nan) := rfl
  obtain ⟨-, -, -, hlocal⟩ := edits_atomic_and_local.1 document path (.put "b" (.array []))
  obtain ⟨-, -, hkept, -⟩ := edits_atomic_and_local.1 document path (.putDouble "b" Binary64.nan)
  have honly : ChangesOnlyAt path document changed := (hlocal (some .null) (by rw [hdone])).2
  have hpath : ¬ path <+: [.key "a", .index 0] := by decide
  have hoff : ¬ [.key "a", .index 0] <+: path := by decide
  exact ⟨⟨hdone, honly⟩, ⟨hpath, hoff, honly.off _ hpath hoff⟩, hfailed, hkept _ hfailed⟩

end Entry

end ExtendedJson
