import ExtendedJson.CallTree.Decode
import ExtendedJson.CallTree.Encode
import ExtendedJson.Proofs.EntryShape

/-!
# Call trees as trees

The induction over call trees, and what the conversions from them and to them say over lists. A
conversion of a list succeeds when it does for each element, and what it gives goes element by
element with what it was given.
-/

namespace ExtendedJson

namespace CallTree

/-! ## Induction -/

/-- Induction over call trees, with the hypothesis for all items of a sequence and all values of a
map. Of keys nothing is assumed, because nothing recurses into them. -/
@[elab_as_elim]
theorem byShape {P : CallTree → Prop} (unit : P .unit) (none : P .none)
    (some : ∀ inner, P inner → P (.some inner)) (newtype : ∀ inner, P inner → P (.newtype inner))
    (boolean : ∀ value, P (.boolean value)) (int64 : ∀ value, P (.int64 value))
    (uint64 : ∀ value, P (.uint64 value)) (int128 : ∀ value, P (.int128 value))
    (uint128 : ∀ value, P (.uint128 value)) (double : ∀ value, P (.double value))
    (char : ∀ value, P (.char value)) (text : ∀ value, P (.text value))
    (bytes : ∀ value, P (.bytes value))
    (seq : ∀ length items, (∀ item ∈ items, P item) → P (.seq length items))
    (map : ∀ length pairs, (∀ pair ∈ pairs, P pair.2) → P (.map length pairs)) : ∀ tree, P tree
  | .unit => unit
  | .none => none
  | .some inner => some inner (byShape unit none some newtype boolean int64 uint64 int128 uint128
      double char text bytes seq map inner)
  | .newtype inner => newtype inner (byShape unit none some newtype boolean int64 uint64 int128
      uint128 double char text bytes seq map inner)
  | .boolean value => boolean value
  | .int64 value => int64 value
  | .uint64 value => uint64 value
  | .int128 value => int128 value
  | .uint128 value => uint128 value
  | .double value => double value
  | .char value => char value
  | .text value => text value
  | .bytes value => bytes value
  | .seq length items => seq length items fun item _ =>
      byShape unit none some newtype boolean int64 uint64 int128 uint128 double char text bytes seq
        map item
  | .map length pairs => map length pairs fun pair _ =>
      byShape unit none some newtype boolean int64 uint64 int128 uint128 double char text bytes seq
        map pair.2
termination_by tree => sizeOf tree
decreasing_by
  · simp only [CallTree.some.sizeOf_spec]
    omega
  · simp only [CallTree.newtype.sizeOf_spec]
    omega
  · rename_i h
    have := List.sizeOf_lt_of_mem h
    simp only [CallTree.seq.sizeOf_spec]
    omega
  · rename_i h
    have hpair := List.sizeOf_lt_of_mem h
    have hvalue : sizeOf pair.2 < sizeOf pair := by
      obtain ⟨key, value⟩ := pair
      simp only [Prod.mk.sizeOf_spec]
      omega
    simp only [CallTree.map.sizeOf_spec]
    omega

/-! ## Reading lists -/

theorem toItems_eq_ok_iff {trees : List CallTree} {items : List Entry} :
    toItems trees = .ok items ↔ List.Forall₂ (fun t e => t.toEntry = .ok e) trees items := by
  symm
  apply forall₂_iff_of_cons
  · simp [toItems, eq_comm]
  · intro tree trees items
    rw [toItems]
    cases tree.toEntry with
    | error _ => simp
    | ok item => cases toItems trees <;> simp [eq_comm]

theorem toMembers_eq_ok_iff {pairs : List (CallTree × CallTree)}
    {members : List (String × Entry)} :
    toMembers pairs = .ok members ↔
      List.Forall₂ (fun p m => toKey p.1 = .ok m.1 ∧ p.2.toEntry = .ok m.2) pairs members := by
  symm
  apply forall₂_iff_of_cons
  · simp [toMembers, eq_comm]
  · intro (key, value) pairs members
    rw [toMembers]
    cases toKey key with
    | error _ => simp
    | ok name =>
        cases value.toEntry with
        | error _ => simp
        | ok entry => cases toMembers pairs <;> simp [eq_comm]

end CallTree

namespace Entry

/-! ## Writing lists -/

theorem itemCalls_eq_ok_iff {items : List Entry} {calls : List CallTree} :
    itemCalls items = .ok calls ↔ List.Forall₂ (fun e t => e.toCallTree = .ok t) items calls := by
  symm
  apply forall₂_iff_of_cons
  · simp [itemCalls, eq_comm]
  · intro item items calls
    rw [itemCalls]
    cases item.toCallTree with
    | error _ => simp
    | ok call => cases itemCalls items <;> simp [eq_comm]

theorem memberCalls_eq_ok_iff {pairs : List (String × Entry)}
    {calls : List (CallTree × CallTree)} :
    memberCalls pairs = .ok calls ↔
      List.Forall₂ (fun p c => c.1 = .text p.1 ∧ p.2.toCallTree = .ok c.2) pairs calls := by
  symm
  apply forall₂_iff_of_cons
  · simp [memberCalls, eq_comm]
  · intro (key, value) pairs calls
    rw [memberCalls]
    cases value.toCallTree with
    | error _ => simp
    | ok call => cases memberCalls pairs <;> simp [eq_comm]

end Entry

end ExtendedJson
