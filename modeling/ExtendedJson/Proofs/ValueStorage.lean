import ExtendedJson.Bridge
import ExtendedJson.Proofs.EntryShape
import ExtendedJson.Proofs.NumberLine

/-!
# Values stored as entries

An entry is a value that was stored already: as a value it is stored as itself again. A value may
not be stored at all, for a double in it that is no number, and what it is stored as may be a
different value, since entries have no arrays and objects without a payload. Both depend on no more
than the leaves of the value, which are what it consists of once its arrays are opened.
-/

namespace ExtendedJson

namespace Value

/-! ## Leaves -/

mutual

/-- What a value consists of, in order, once every array that has a payload is opened. A value that
is no such array is its only leaf. -/
def leaves : Value → List Value
  | array (some items) => leavesOf items
  | leaf => [leaf]

def leavesOf : List Value → List Value
  | [] => []
  | item :: items => leaves item ++ leavesOf items

end

theorem leavesOf_eq_flatMap (items : List Value) : leavesOf items = items.flatMap leaves := by
  induction items with
  | nil => rfl
  | cons item items ih => rw [leavesOf, ih, List.flatMap_cons]

/-- A double that is no number, with no other one before it. -/
def FirstNonFinite (v : Value) (x : Binary64) : Prop :=
  ∃ before behind, v.leaves = before ++ double x :: behind ∧ x.isFinite = false ∧
    ∀ y, double y ∈ before → y.isFinite = true

/-- Every array and every object inside has a payload. -/
def Lossless (v : Value) : Prop := ∀ leaf ∈ v.leaves, leaf ≠ array none ∧ leaf ≠ object none

theorem forall_leaves_array_iff {P : Value → Prop} {items : List Value} :
    (∀ leaf ∈ (array (some items)).leaves, P leaf) ↔
      ∀ item ∈ items, ∀ leaf ∈ item.leaves, P leaf := by
  rw [leaves, leavesOf_eq_flatMap]
  constructor
  · exact fun h item hitem leaf hleaf => h leaf (List.mem_flatMap.mpr ⟨item, hitem, hleaf⟩)
  · intro h leaf hleaf
    obtain ⟨item, hitem, hleaf⟩ := List.mem_flatMap.mp hleaf
    exact h item hitem leaf hleaf

theorem lossless_array_iff {items : List Value} :
    (array (some items)).Lossless ↔ ∀ item ∈ items, item.Lossless := forall_leaves_array_iff

theorem lossless_leaf_iff {v : Value} (h : ∀ items, v ≠ array (some items)) :
    v.Lossless ↔ v ≠ array none ∧ v ≠ object none := by
  rw [Lossless, leaves]
  · exact List.forall_mem_singleton
  · exact h

/-! ## What is not stored -/

def nonFinite? : Value → Option Binary64
  | double x => if x.isFinite then none else some x
  | _ => none

theorem nonFinite?_eq_some_iff {v : Value} {x : Binary64} :
    v.nonFinite? = some x ↔ v = double x ∧ x.isFinite = false := by
  cases v with
  | double y =>
      rw [nonFinite?, double.injEq]
      cases h : y.isFinite with
      | true => simpa using fun hxy : y = x => hxy ▸ h
      | false => simpa using fun hxy : y = x => hxy ▸ h
  | _ => simp [nonFinite?]

theorem firstNonFinite_iff {v : Value} {x : Binary64} :
    v.FirstNonFinite x ↔ v.leaves.findSome? nonFinite? = some x := by
  have hnone (before : List Value) :
      (∀ leaf ∈ before, leaf.nonFinite? = none) ↔ ∀ y, double y ∈ before → y.isFinite = true := by
    simp only [Option.eq_none_iff_forall_ne_some, ne_eq, nonFinite?_eq_some_iff]
    constructor
    · intro h y hy
      simpa using h _ hy y
    · rintro h leaf hleaf y ⟨rfl, hy⟩
      simp [h y hleaf] at hy
  rw [List.findSome?_eq_some_iff, FirstNonFinite]
  simp only [hnone, nonFinite?_eq_some_iff]
  constructor
  · rintro ⟨before, behind, hleaves, hx, hbefore⟩
    exact ⟨before, double x, behind, hleaves, ⟨rfl, hx⟩, hbefore⟩
  · rintro ⟨before, leaf, behind, hleaves, ⟨rfl, hx⟩, hbefore⟩
    exact ⟨before, behind, hleaves, hx, hbefore⟩

/-- What went wrong, if anything. -/
def failure? {α : Type} : Except Error α → Option Error
  | .ok _ => none
  | .error cause => some cause

theorem failure?_toItems_cons (value : Value) (values : List Value) :
    failure? (toItems (value :: values)) =
      (failure? value.toEntry).or (failure? (toItems values)) := by
  rw [toItems]
  cases value.toEntry with
  | error cause => rfl
  | ok item => cases toItems values <;> rfl

theorem failure?_toItems {values : List Value}
    (h : ∀ v ∈ values, failure? v.toEntry = (v.leaves.findSome? nonFinite?).map .nonFinite) :
    failure? (toItems values) = ((leavesOf values).findSome? nonFinite?).map .nonFinite := by
  induction values with
  | nil => rfl
  | cons value values ih =>
      rw [List.forall_mem_cons] at h
      rw [failure?_toItems_cons, h.1, ih h.2, leavesOf, List.findSome?_append, Option.map_or]

theorem failure?_ofBinary64 (x : Binary64) :
    failure? (Entry.ofBinary64 x) = if x.isFinite then none else some (.nonFinite x) := by
  rw [Entry.ofBinary64, Decimal.ofBinary64, ← Binary64.isSome_toDecimal?]
  cases x.toDecimal? <;> rfl

/-- The error about a value is that about the first of its leaves which are no numbers. -/
theorem failure?_toEntry (v : Value) :
    failure? v.toEntry = (v.leaves.findSome? nonFinite?).map .nonFinite := by
  induction v using byItems with
  | h v ih =>
      cases v with
      | array payload =>
          cases payload with
          | none => rfl
          | some items =>
              have hitems : failure? (toItems items) = _ := failure?_toItems ih
              rw [leaves, toEntry, ← hitems]
              cases toItems items <;> rfl
      | double x =>
          rw [toEntry, failure?_ofBinary64, leaves, List.findSome?_singleton, nonFinite?]
          · cases x.isFinite <;> rfl
          · simp
      | string payload => cases payload <;> rfl
      | object payload => cases payload <;> rfl
      | _ => rfl

theorem toEntry_eq_error_iff {v : Value} {cause : Error} :
    v.toEntry = .error cause ↔ ∃ x, v.FirstNonFinite x ∧ cause = .nonFinite x := by
  have hfailure : v.toEntry = .error cause ↔ failure? v.toEntry = some cause := by
    cases v.toEntry <;> simp [failure?]
  rw [hfailure, failure?_toEntry, Option.map_eq_some_iff]
  simp only [firstNonFinite_iff, eq_comm]

/-! ## What is stored -/

theorem toItems_eq_ok_iff {values : List Value} {items : List Entry} :
    toItems values = .ok items ↔ List.Forall₂ (fun v e => v.toEntry = .ok e) values items := by
  symm
  apply forall₂_iff_of_cons
  · simp [toItems, eq_comm]
  · intro value values items
    rw [toItems]
    cases value.toEntry with
    | error _ => simp
    | ok item => cases toItems values <;> simp [eq_comm]

/-- Induction over a value and the entry that it is stored as. -/
@[elab_as_elim]
theorem toEntry_induction {P : Value → Entry → Prop}
    (leaf : ∀ v e, (∀ values, v ≠ .array (some values)) → v.toEntry = .ok e → P v e)
    (array : ∀ values items, List.Forall₂ P values items →
      P (.array (some values)) (.array items)) {v : Value} {e : Entry} (h : v.toEntry = .ok e) :
    P v e := by
  induction v using byItems generalizing e with
  | h v ih =>
      by_cases hleaf : ∃ values, v = .array (some values)
      · obtain ⟨values, rfl⟩ := hleaf
        rw [toEntry] at h
        split at h
        · cases h
        · next items hitems =>
            cases h
            have hstored : List.Forall₂
                (fun v e => (∀ e, v.toEntry = .ok e → P v e) ∧ v.toEntry = .ok e) values items :=
              (List.forall₂_and_left values items).mpr
                ⟨fun v hv _ => ih v hv, toItems_eq_ok_iff.mp hitems⟩
            exact array values items (hstored.imp fun v e h => h.1 e h.2)
      · exact leaf v e (not_exists.mp hleaf) h

/-- Values without items are equal when they have the same key. -/
theorem same_of_flatKey_eq {a b : Value} (ha : a.items = []) (hb : b.items = [])
    (h : a.flatKey = b.flatKey) : a.same b = true := by
  rw [same_iff, compare_eq_andThen, andThen_eq_ok_eq_iff, compareFlat_eq, h, FlatKey.compare?_self,
    ha, hb, compareItems]
  exact ⟨rfl, rfl⟩

theorem same_array_iff {as bs : List Value} :
    (array (some as)).same (array (some bs)) = true ↔
      List.Forall₂ (fun a b => a.same b = true) as bs := by
  simp only [same_iff]
  rw [compare, compareItems_eq_ok_eq_iff]

theorem ofBinary64_eq_ok {x : Binary64} {e : Entry} (h : Entry.ofBinary64 x = .ok e) :
    ∃ d, e = .number d ∧ x.toDecimal? = some d := by
  unfold Entry.ofBinary64 at h
  split at h
  · next d hd =>
      cases h
      exact ⟨d, rfl, Binary64.ofBinary64_eq_ok_iff.mp hd⟩
  · cases h

/-- A leaf comes back as an equal value, unless it was stored as `null` without being a string. -/
theorem same_toValue_leaf_iff {v : Value} {e : Entry} (hleaf : ∀ items, v ≠ array (some items))
    (h : v.toEntry = .ok e) : e.toValue.same v = true ↔ v.Lossless := by
  rw [lossless_leaf_iff hleaf]
  have hequal {e : Entry} (hitems : e.toValue.items = []) (hkey : e.toValue.flatKey = v.flatKey)
      (hpresent : v ≠ array none ∧ v ≠ object none) :
      e.toValue.same v = true ↔ v ≠ array none ∧ v ≠ object none :=
    iff_of_true (same_of_flatKey_eq hitems (items_eq_nil hleaf) hkey) hpresent
  cases v with
  | array payload =>
      cases payload with
      | none =>
          cases h
          exact iff_of_false (by decide) (by simp)
      | some items => exact absurd rfl (hleaf items)
  | object payload =>
      cases payload with
      | none =>
          cases h
          exact iff_of_false (by decide) (by simp)
      | some members =>
          cases h
          exact hequal rfl rfl (by simp)
  | string payload => cases payload <;> cases h <;> exact hequal rfl rfl (by simp)
  | double x =>
      obtain ⟨d, rfl, hd⟩ := ofBinary64_eq_ok h
      have hkey : NumericKey.ofBinary64 x = .finite d := ofBinary64_eq_finite_iff.mpr hd
      exact hequal rfl (congrArg FlatKey.number hkey.symm) (by simp)
  | _ =>
      cases h
      exact hequal rfl rfl (by simp)

/-- Items come back as equal ones when each of them does. -/
theorem same_toValues_iff {values : List Value} {items : List Entry}
    (h : List.Forall₂ (fun v e => e.toValue.same v = true ↔ v.Lossless) values items) :
    List.Forall₂ (fun a b => a.same b = true) (Entry.toValues items) values ↔
      ∀ v ∈ values, v.Lossless := by
  induction h with
  | nil => simp [Entry.toValues]
  | cons hfirst _ ih => rw [Entry.toValues, List.forall₂_cons, List.forall_mem_cons, ih, hfirst]

/-- A value comes back as an equal one unless an array or an object in it had no payload. -/
theorem same_toValue_iff {v : Value} {e : Entry} (h : v.toEntry = .ok e) :
    e.toValue.same v = true ↔ v.Lossless := by
  refine toEntry_induction (fun _ _ hleaf h => same_toValue_leaf_iff hleaf h) ?_ h
  intro values items h
  rw [Entry.toValue, same_array_iff, lossless_array_iff]
  exact same_toValues_iff h

end Value

namespace Entry

theorem toValues_eq_map (items : List Entry) : toValues items = items.map toValue := by
  induction items with
  | nil => rfl
  | cons item items ih => rw [toValues, ih, List.map_cons]

theorem toEntry_toValue (e : Entry) : e.toValue.toEntry = .ok e := by
  induction e using byShape with
  | array items ih =>
      have hitems : Value.toItems (toValues items) = .ok items := by
        rw [Value.toItems_eq_ok_iff, toValues_eq_map, List.forall₂_map_left_iff]
        exact List.forall₂_same.mpr ih
      rw [toValue, Value.toEntry, hitems]
  | null | boolean | number | string | object | binary | date | time | timestamp => rfl

end Entry

/-- Entries and values stand for each other: an entry is stored as itself when it is made a value,
and a value is not stored just when a double in it is no number, which the error is about if it is
the first one. What a stored value is read back as equals it just when no array and no object in it
was without a payload. -/
theorem storage_symmetric :
    (∀ e : Entry, e.toValue.toEntry = .ok e) ∧
    ∀ v : Value,
      (∀ cause, v.toEntry = .error cause ↔ ∃ x, v.FirstNonFinite x ∧ cause = .nonFinite x) ∧
      ∀ e, v.toEntry = .ok e → (e.toValue.same v = true ↔ v.Lossless) :=
  ⟨Entry.toEntry_toValue, fun _ =>
    ⟨fun _ => Value.toEntry_eq_error_iff, fun _ => Value.same_toValue_iff⟩⟩

/-- An array in an array that comes back, one that does not because of an absent payload, and one
that is not stored because of its second double. -/
theorem storage_symmetric_nested :
    let kept : Value := .array (some [.integer 7, .array (some [.double ⟨0x3FB999999999999A⟩,
      .string none, .date none]), .object (some ⟨[("k", .number ⟨10, 1⟩)]⟩)])
    let lost : Value := .array (some [.boolean true, .array (some [.array none])])
    let refused : Value := .array (some [.double ⟨0x3FE0000000000000⟩,
      .array (some [.double (Binary64.infinity true)]), .double Binary64.nan])
    (∃ e, kept.toEntry = .ok e ∧ e.toValue.same kept = true) ∧
      (∃ e, lost.toEntry = .ok e ∧ e.toValue.same lost = false) ∧
      refused.toEntry = .error (.nonFinite (Binary64.infinity true)) := by
  intro kept lost refused
  have hkept : kept.toEntry = .ok (.array [.number ⟨7, 0⟩, .array [.number ⟨1, 1⟩, .null,
      .date none], .object ⟨[("k", .number ⟨10, 1⟩)]⟩]) := by rfl
  have hlost : lost.toEntry = .ok (.array [.boolean true, .array [.null]]) := by rfl
  refine ⟨⟨_, hkept, ?_⟩, ⟨_, hlost, ?_⟩, ?_⟩
  · rw [(storage_symmetric.2 kept).2 _ hkept]
    simp [kept, Value.Lossless, Value.leaves, Value.leavesOf]
  · rw [← Bool.not_eq_true, (storage_symmetric.2 lost).2 _ hlost]
    simp [lost, Value.Lossless, Value.leaves, Value.leavesOf]
  · rw [(storage_symmetric.2 refused).1]
    refine ⟨_, ⟨[.double ⟨0x3FE0000000000000⟩], [.double Binary64.nan], rfl, by decide, ?_⟩, rfl⟩
    simp only [List.mem_singleton, Value.double.injEq, forall_eq]
    decide

end ExtendedJson
