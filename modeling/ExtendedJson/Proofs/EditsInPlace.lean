import ExtendedJson.Entry.InPlace
import ExtendedJson.Proofs.Members

/-!
# Edits in place do what the functions say

A program that edits in place could leave anything behind when it fails. That it leaves nothing is
shown program by program: each does what a function says, and nothing when the function fails. For
most of them that is read off the program, which gives up before it writes. For a program that works
on a part it is not: a failure inside leaves the part as it was, but the part is written back all the
same, and so it matters that writing back what is there changes nothing.
-/

namespace ExtendedJson

/-! ## Writing back what is there -/

namespace Members

variable {α : Type}

/-- Putting what is there changes nothing. -/
theorem put_self {m : Members α} {key : String} {value : α} (h : m.get? key = some value) :
    m.put key value = m := by
  obtain ⟨pairs⟩ := m
  rw [put, Members.mk.injEq]
  change pairs.lookup key = some value at h
  induction pairs with
  | nil => cases h
  | cons pair rest ih =>
      obtain ⟨first, old⟩ := pair
      rw [lookup_cons_eq_ite] at h
      by_cases hfirst : first = key
      · rw [if_pos hfirst.symm] at h
        rw [hfirst, putPairs_cons_self, Option.some.inj h]
      · rw [if_neg (Ne.symm hfirst)] at h
        rw [putPairs_cons_of_ne hfirst, ih h]

end Members

namespace Object

variable {o : Object} {key : String} {entry : Entry}

theorem get_eq_ok_iff : Object.get o key = .ok entry ↔ o.get? key = some entry := by
  rw [Object.get]
  cases o.get? key <;> simp

end Object

namespace Items

variable {items : List Entry} {index : Nat} {entry : Entry}

theorem get_eq_ok_iff : Items.get items index = .ok entry ↔ items[index]? = some entry := by
  rw [Items.get]
  cases items[index]? <;> simp

end Items

/-! ## Programs and functions -/

namespace InPlace

variable {σ τ α β : Type}

/-- How a function ends on a thing, and the thing then: as the function gives it, or as it was. -/
def settle (thing : σ) : Except Error (α × σ) → Except Error α × σ
  | .error error => (.error error, thing)
  | .ok (told, changed) => (.ok told, changed)

/-- A program does what a function says, and nothing when the function fails. -/
def Does (act : InPlace σ α) (change : σ → Except Error (α × σ)) : Prop :=
  ∀ thing, act.runOn thing = settle thing (change thing)

theorem Does.congr {act : InPlace σ α} {change other : σ → Except Error (α × σ)}
    (h : Does act change) (hsame : ∀ thing, change thing = other thing) : Does act other :=
  fun thing => by rw [h thing, hsame]

/-- What a function on a part says of the whole. -/
def onPartOf (part : σ → Except Error τ) (write : τ → σ → σ) (change : τ → Except Error (α × τ))
    (thing : σ) : Except Error (α × σ) :=
  match part thing with
  | .error error => .error error
  | .ok inner =>
    match change inner with
    | .error error => .error error
    | .ok (told, left) => .ok (told, write left thing)

/-- Working on a part does nothing but what is done to the part, because a part that was left as it
was is written back as it was. -/
theorem Does.onPart {act : InPlace τ α} {change : τ → Except Error (α × τ)} (h : Does act change)
    {part : σ → Except Error τ} {write : τ → σ → σ}
    (hback : ∀ thing inner, part thing = .ok inner → write inner thing = thing) :
    Does (InPlace.onPart part write act) (onPartOf part write change) := by
  intro thing
  rw [runOn_onPart, onPartOf]
  cases hpart : part thing with
  | error error => rfl
  | ok inner =>
      simp only [h inner]
      cases change inner with
      | error error => exact congrArg _ (hback thing inner hpart)
      | ok changed => rfl

theorem Does.onObject {act : InPlace Object α} {change : Object → Except Error (α × Object)}
    (h : Does act change) :
    Does (InPlace.onObject act)
      (onPartOf Entry.asObject (fun members _ => .object members) change) := by
  refine h.onPart fun entry members hpart => ?_
  cases entry <;> cases hpart
  rfl

theorem Does.onArray {act : InPlace (List Entry) α}
    {change : List Entry → Except Error (α × List Entry)} (h : Does act change) :
    Does (InPlace.onArray act) (onPartOf Entry.asArray (fun items _ => .array items) change) := by
  refine h.onPart fun entry items hpart => ?_
  cases entry <;> cases hpart
  rfl

theorem Does.onMember {act : InPlace Entry α} {change : Entry → Except Error (α × Entry)}
    (h : Does act change) (key : String) :
    Does (InPlace.onMember key act)
      (onPartOf (fun members => Object.get members key)
        (fun entry members => members.put key entry) change) :=
  h.onPart fun _ _ hpart => Members.put_self (Object.get_eq_ok_iff.mp hpart)

theorem Does.onItem {act : InPlace Entry α} {change : Entry → Except Error (α × Entry)}
    (h : Does act change) (index : Nat) :
    Does (InPlace.onItem index act)
      (onPartOf (fun items => Items.get items index)
        (fun entry items => items.set index entry) change) := by
  refine h.onPart fun items entry hpart => ?_
  obtain ⟨hindex, rfl⟩ := List.getElem?_eq_some_iff.mp (Items.get_eq_ok_iff.mp hpart)
  exact List.set_getElem_self hindex

/-- A walk along a path does what `changeAt` says. -/
theorem Does.onPath {act : InPlace Entry α} {change : Entry → Except Error (α × Entry)}
    (h : Does act change) (path : List PathStep) :
    Does (InPlace.onPath path act) (Entry.changeAt change path) := by
  induction path with
  | nil => exact h
  | cons step path ih =>
      cases step with
      | key key =>
          refine (ih.onMember key).onObject.congr fun entry => ?_
          rw [Entry.changeAt, Entry.child]
          cases entry with
          | object members =>
              simp only [onPartOf, Entry.asObject]
              cases Object.get members key with
              | error error => rfl
              | ok inner =>
                  simp only
                  cases Entry.changeAt change path inner <;> rfl
          | _ => rfl
      | index index =>
          refine (ih.onItem index).onArray.congr fun entry => ?_
          rw [Entry.changeAt, Entry.child]
          cases entry with
          | array items =>
              simp only [onPartOf, Entry.asArray]
              cases Items.get items index with
              | error error => rfl
              | ok inner =>
                  simp only
                  cases Entry.changeAt change path inner <;> rfl
          | _ => rfl

/-! ## The edits -/

theorem Does.map {act : InPlace σ α} {change : σ → Except Error (α × σ)} (h : Does act change)
    (tell : α → β) :
    Does (tell <$> act) fun thing => (change thing).map fun told => (tell told.1, told.2) := by
  intro thing
  rw [runOn_map, h thing]
  dsimp only
  cases change thing <;> rfl

theorem does_replace (new : Entry) :
    Does (some <$> replace new) fun old => old.replace new := by
  intro old
  by_cases h : old.kind = new.kind
  · simp [replace, swap, Entry.replace, settle, h, Except.map]
  · simp [replace, Entry.replace, settle, h]

theorem does_put (key : String) (entry : Entry) :
    Does (put key entry) fun members => .ok (members.get? key, members.put key entry) :=
  fun _ => rfl

theorem does_putDouble (key : String) (x : Binary64) :
    Does (putDouble key x) fun members =>
      match Entry.ofBinary64 x with
      | .error error => .error error
      | .ok new => .ok (members.get? key, members.put key new) := by
  intro members
  rw [putDouble]
  cases Entry.ofBinary64 x <;> rfl

theorem does_removeKey (key : String) :
    Does (removeKey key) fun members => .ok (members.get? key, members.erase key) :=
  fun _ => rfl

theorem does_extend (pairs : List (String × Entry)) :
    Does (extend pairs) fun members => .ok ((), members.extend pairs) := by
  induction pairs with
  | nil => exact fun _ => rfl
  | cons pair pairs ih => exact fun members => ih (members.put pair.1 pair.2)

theorem does_add (item : Entry) : Does (add item) fun items => .ok ((), items ++ [item]) :=
  fun _ => rfl

theorem does_addDouble (x : Binary64) :
    Does (addDouble x) fun items =>
      match Entry.ofBinary64 x with
      | .error error => .error error
      | .ok item => .ok ((), items ++ [item]) := by
  intro items
  rw [addDouble]
  cases Entry.ofBinary64 x <;> rfl

theorem does_addAll (more : List Entry) :
    Does (addAll more) fun items => .ok ((), items ++ more) := by
  induction more with
  | nil =>
      intro items
      dsimp only
      rw [List.append_nil]
      rfl
  | cons item more ih =>
      intro items
      dsimp only
      rw [List.append_cons]
      exact ih (items ++ [item])

theorem does_insert (index : Nat) (item : Entry) :
    Does (insert index item) fun items =>
      (Items.insert items index item).map fun items => ((), items) := by
  intro items
  by_cases h : index ≤ items.length
  · simp [insert, Items.insert, settle, h, Nat.not_lt.mpr h, Except.map]
  · simp [insert, Items.insert, settle, h, Nat.lt_of_not_le h, Except.map]

theorem does_setItem (index : Nat) (item : Entry) :
    Does (setItem index item) fun items => Items.set items index item := by
  have hswap : Does (swap item) fun old => .ok (old, item) := fun _ => rfl
  refine (hswap.onItem index).congr fun items => ?_
  rw [onPartOf, Items.get, Items.set]
  cases items[index]? <;> rfl

theorem does_removeIndex (index : Nat) :
    Does (removeIndex index) fun items => Items.remove items index := by
  intro items
  simp only [removeIndex, runOn_bind, runOn_get, Items.get, Items.remove]
  cases items[index]? <;> rfl

theorem Does.changeObject {act : InPlace Object (Option Entry)}
    {change : Object → Except Error (Option Entry × Object)} (h : Does act change) :
    Does (InPlace.onObject act) fun target => target.changeObject change := by
  refine h.onObject.congr fun target => ?_
  cases target with
  | object members =>
      simp only [onPartOf, Entry.changeObject, Entry.asObject]
      cases change members <;> rfl
  | _ => rfl

theorem Does.changeArray {act : InPlace (List Entry) (Option Entry)}
    {change : List Entry → Except Error (Option Entry × List Entry)} (h : Does act change) :
    Does (InPlace.onArray act) fun target => target.changeArray change := by
  refine h.onArray.congr fun target => ?_
  cases target with
  | array items =>
      simp only [onPartOf, Entry.changeArray, Entry.asArray]
      cases change items <;> rfl
  | _ => rfl

theorem does_edit (change : Edit) : Does (edit change) fun target => target.edit change := by
  cases change with
  | replace new => exact does_replace new
  | put key new => exact (does_put key new).changeObject
  | putDouble key x => exact (does_putDouble key x).changeObject
  | removeKey key => exact (does_removeKey key).changeObject
  | append others => exact ((does_extend others.pairs).map fun _ => none).changeObject
  | extend pairs => exact ((does_extend pairs).map fun _ => none).changeObject
  | add item => exact ((does_add item).map fun _ => none).changeArray
  | addDouble x =>
      refine (((does_addDouble x).map fun _ => none).congr fun items => ?_).changeArray
      cases Entry.ofBinary64 x <;> rfl
  | insert index item =>
      refine (((does_insert index item).map fun _ => none).congr fun items => ?_).changeArray
      cases Items.insert items index item <;> rfl
  | set index item =>
      refine (((does_setItem index item).map some).congr fun items => ?_).changeArray
      cases Items.set items index item <;> rfl
  | removeIndex index =>
      refine (((does_removeIndex index).map some).congr fun items => ?_).changeArray
      cases Items.remove items index <;> rfl
  | addAll more => exact ((does_addAll more).map fun _ => none).changeArray

/-- An edit in place does what `Entry.editAt` says. -/
theorem does_editAt (path : List PathStep) (change : Edit) :
    Does (editAt path change) (Entry.editAt path change) :=
  (does_edit change).onPath path

end InPlace

end ExtendedJson
