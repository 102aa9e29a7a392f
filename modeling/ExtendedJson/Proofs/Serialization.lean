import ExtendedJson.Proofs.Integers
import ExtendedJson.Proofs.Rereading
import ExtendedJson.Proofs.TreeShape

/-!
# Entries through call trees

A frame is told an entry as a call tree and hands back what it was told. Integers of 64 bits go as
what they are, and lose nothing but their scale on the way. An object in the shape of a wrapper is
refused here as it is by a writer, and everything else comes back: extended entries as maps that are
recognised again, and objects with the keys they had. Whether what comes back equals the entry is
left to its numbers, since a number of scale ten may lose a carry when it is compared with its
integer.
-/

namespace ExtendedJson

open Grammar

/-! ## Announced lengths -/

namespace CallTree

/-- A call tree is a part of itself, and the parts of what it holds are its own. -/
inductive Part : CallTree → CallTree → Prop where
  | self (tree : CallTree) : Part tree tree
  | some {part inner : CallTree} (inside : Part part inner) : Part part (.some inner)
  | newtype {part inner : CallTree} (inside : Part part inner) : Part part (.newtype inner)
  | item {part item : CallTree} {length : Option Nat} {items : List CallTree} (mem : item ∈ items)
    (inside : Part part item) : Part part (.seq length items)
  | key {part : CallTree} {pair : CallTree × CallTree} {length : Option Nat}
    {pairs : List (CallTree × CallTree)} (mem : pair ∈ pairs) (inside : Part part pair.1) :
    Part part (.map length pairs)
  | value {part : CallTree} {pair : CallTree × CallTree} {length : Option Nat}
    {pairs : List (CallTree × CallTree)} (mem : pair ∈ pairs) (inside : Part part pair.2) :
    Part part (.map length pairs)

/-- The length that was announced, if one had to be, is that of what follows. -/
def Counted : CallTree → Prop
  | .seq length items => length = Option.some items.length
  | .map length pairs => length = Option.some pairs.length
  | _ => True

/-- Every sequence and every map inside has the length that was announced for it. -/
def Announced (tree : CallTree) : Prop := ∀ part, Part part tree → part.Counted

def IsScalar : CallTree → Prop
  | .some _ | .newtype _ | .seq .. | .map .. => False
  | _ => True

theorem IsScalar.announced {tree : CallTree} (h : tree.IsScalar) : tree.Announced := by
  intro part hpart
  cases hpart with
  | self =>
      cases tree with
      | seq | map => exact h.elim
      | _ => exact trivial
  | some | newtype | item | key | value => exact h.elim

theorem announced_text (value : String) : (text value).Announced := IsScalar.announced trivial

theorem announced_some {inner : CallTree} (h : inner.Announced) :
    (CallTree.some inner).Announced := by
  intro part hpart
  cases hpart with
  | self => exact trivial
  | some hinside => exact h part hinside

theorem announced_seq {items : List CallTree} (h : ∀ item ∈ items, item.Announced) :
    (seq items.length items).Announced := by
  intro part hpart
  cases hpart with
  | self => exact rfl
  | item hmem hinside => exact h _ hmem part hinside

theorem announced_map {pairs : List (CallTree × CallTree)}
    (h : ∀ pair ∈ pairs, pair.1.Announced ∧ pair.2.Announced) :
    (map pairs.length pairs).Announced := by
  intro part hpart
  cases hpart with
  | self => exact rfl
  | key hmem hinside => exact (h _ hmem).1 part hinside
  | value hmem hinside => exact (h _ hmem).2 part hinside

/-- A call tree that tells an entry: the lengths in it are right, and it is read as the entry with
its numbers at scale zero. -/
structure Tells (tree : CallTree) (e : Entry) : Prop where
  announced : tree.Announced
  read : tree.toEntry = .ok (e.mapNumbers Decimal.integral)

theorem IsScalar.tells {tree : CallTree} {e : Entry} (h : tree.IsScalar)
    (hread : tree.toEntry = .ok (e.mapNumbers Decimal.integral)) : tree.Tells e where
  announced := h.announced
  read := hread

end CallTree

/-! ## Numbers -/

/-- The decimal stands for an integer of 64 bits, with or without a sign. -/
def Decimal.IsWord (d : Decimal) : Prop := ∃ n : Int, d.toRat = n ∧ -2 ^ 63 ≤ n ∧ n < 2 ^ 64

theorem Decimal.IsWord.same_integral_iff {d : Decimal} (h : d.IsWord) :
    d.integral.same d = true ↔ ¬ d.CarryLost := by
  obtain ⟨n, hvalue, hlow, hhigh⟩ := h
  exact Decimal.same_integral_iff hvalue (by omega)

namespace Entry

open CallTree (IsScalar Tells)

theorem exists_numberCall {d : Decimal} (h : d.IsWord) :
    ∃ tree, numberCall d = .ok tree ∧ tree.Tells (.number d) := by
  obtain ⟨n, hvalue, hlow, hhigh⟩ := h
  have hinteger : d.toInt? 20 = some n := Decimal.toInt?_of_toRat hvalue (by omega)
  have hbounds : pow2 63 = 2 ^ 63 ∧ pow2 64 = 2 ^ 64 := ⟨rfl, rfl⟩
  rw [numberCall, hinteger]
  simp only [hbounds]
  by_cases hsigned : n < 2 ^ 63
  · refine ⟨_, if_pos ⟨by exact_mod_cast hlow, by exact_mod_cast hsigned⟩,
      IsScalar.tells trivial ?_⟩
    rw [CallTree.toEntry, Int64.toInt_ofInt_of_le hlow hsigned, mapNumbers,
      Decimal.integral_of_toRat hvalue]
    rfl
  · rw [if_neg (fun h => hsigned (by exact_mod_cast h.2))]
    have hsize : n.toNat < UInt64.size := by
      rw [show UInt64.size = 2 ^ 64 from rfl]
      omega
    refine ⟨_, if_pos ⟨by omega, by exact_mod_cast hhigh⟩, IsScalar.tells trivial ?_⟩
    rw [CallTree.toEntry, UInt64.toNat_ofNat_of_lt' hsize, Int.toNat_of_nonneg (by omega),
      mapNumbers, Decimal.integral_of_toRat hvalue]
    rfl

/-! ## Entries -/

theorem exists_wrapperCall {e : Entry} {text : Option (List Char)}
    (h : e.extendedText? = some text) (htold : e.toCallTree = .ok (wrapperCall e.kind text))
    (hnumbers : e.mapNumbers Decimal.integral = e) :
    ∃ tree, e.toCallTree = .ok tree ∧ tree.Tells e := by
  obtain ⟨marker, hmarker, hkind⟩ := marker?_of_extendedText h
  have hread : ofObject (Members.ofPairs [(marker, underMarker text)]) = .ok e := by
    have hstands := ofObject_eq_ok_iff.mpr (standsFor?_wrapper h hkind)
    rwa [← Members.pairs_ofPairs] at hstands
  obtain ⟨call, hcall, hunder, hannounced⟩ : ∃ call : CallTree,
      wrapperCall e.kind text = .map (some 1) [(.text marker, call)] ∧
        call.toEntry = .ok (underMarker text) ∧ call.Announced := by
    cases text with
    | none =>
        exact ⟨.none, by rw [wrapperCall.eq_def, hmarker]; rfl, rfl, IsScalar.announced trivial⟩
    | some text =>
        exact ⟨.some (.text (String.ofList text)), by rw [wrapperCall.eq_def, hmarker]; rfl, rfl,
          CallTree.announced_some (CallTree.announced_text _)⟩
  refine ⟨_, htold.trans (congrArg _ hcall), CallTree.announced_map
    (List.forall_mem_singleton.mpr ⟨CallTree.announced_text _, hannounced⟩), ?_⟩
  rw [hnumbers]
  simp only [CallTree.toEntry, CallTree.toMembers, CallTree.toKey, hunder, hread]

theorem exists_itemCalls {items : List Entry}
    (h : ∀ item ∈ items, ∃ tree, item.toCallTree = .ok tree ∧ tree.Tells item) :
    ∃ tree, (array items).toCallTree = .ok tree ∧ tree.Tells (.array items) := by
  obtain ⟨calls, hcalls⟩ := exists_forall₂_iff.mpr h
  have htold : itemCalls items = .ok calls := itemCalls_eq_ok_iff.mpr (hcalls.imp fun _ _ h => h.1)
  have hread : CallTree.toItems calls = .ok (mapItems Decimal.integral items) := by
    rw [CallTree.toItems_eq_ok_iff, mapItems_eq_map, List.forall₂_map_right_iff]
    exact (hcalls.imp fun _ _ h => h.2.read).flip
  refine ⟨.seq (some items.length) calls, by rw [toCallTree, htold], ?_, ?_⟩
  · rw [hcalls.length_eq]
    exact CallTree.announced_seq (forall_mem_of_forall₂ hcalls fun _ _ _ h => h.2.announced)
  · rw [CallTree.toEntry, hread]
    rfl

theorem exists_memberCalls {pairs : List (String × Entry)} (hkeys : (pairs.map Prod.fst).Nodup)
    (hplain : Object.wrapper? ⟨pairs⟩ = none)
    (h : ∀ pair ∈ pairs, ∃ tree, pair.2.toCallTree = .ok tree ∧ tree.Tells pair.2) :
    ∃ tree, (object ⟨pairs⟩).toCallTree = .ok tree ∧ tree.Tells (.object ⟨pairs⟩) := by
  have hmembers : ∀ pair ∈ pairs, ∃ call : CallTree × CallTree,
      call.1 = .text pair.1 ∧ pair.2.toCallTree = .ok call.2 ∧ call.2.Tells pair.2 := by
    intro pair hpair
    obtain ⟨tree, htold, htells⟩ := h pair hpair
    exact ⟨(.text pair.1, tree), rfl, htold, htells⟩
  obtain ⟨calls, hcalls⟩ := exists_forall₂_iff.mpr hmembers
  have htold : memberCalls pairs = .ok calls :=
    memberCalls_eq_ok_iff.mpr (hcalls.imp fun _ _ h => ⟨h.1, h.2.1⟩)
  have hread : CallTree.toMembers calls = .ok (mapPairs Decimal.integral pairs) := by
    rw [CallTree.toMembers_eq_ok_iff, mapPairs_eq_map, List.forall₂_map_right_iff]
    exact (hcalls.imp fun _ _ h => ⟨by rw [h.1]; rfl, h.2.2.read⟩).flip
  have hobject : ofObject (Members.ofPairs (mapPairs Decimal.integral pairs)) =
      .ok (.object ⟨mapPairs Decimal.integral pairs⟩) := by
    rw [Members.ofPairs_of_nodup (by rwa [keys_mapPairs]), ofObject, wrapper?_mapPairs, hplain]
  refine ⟨.map (some pairs.length) calls, by rw [toCallTree, hplain]; simp only [htold], ?_, ?_⟩
  · rw [hcalls.length_eq]
    exact CallTree.announced_map (forall_mem_of_forall₂ hcalls
      fun _ _ _ h => ⟨h.1 ▸ CallTree.announced_text _, h.2.2.announced⟩)
  · rw [CallTree.toEntry, hread]
    simp only [hobject]
    rfl

theorem exists_toCallTree {e : Entry} :
    e.DistinctKeys → e.Unambiguous → e.NumbersSatisfy Decimal.IsWord →
      ∃ tree, e.toCallTree = .ok tree ∧ tree.Tells e := by
  induction e using byShape with
  | null | boolean | string => exact fun _ _ _ => ⟨_, rfl, IsScalar.tells trivial rfl⟩
  | number d =>
      intro _ _ hnumbers
      exact exists_numberCall (numbersSatisfy_number_iff.mp hnumbers)
  | array items ih =>
      intro hkeys hplain hnumbers
      rw [distinctKeys_array_iff] at hkeys
      rw [unambiguous_array_iff] at hplain
      rw [numbersSatisfy_array_iff] at hnumbers
      exact exists_itemCalls fun item hitem =>
        ih item hitem (hkeys item hitem) (hplain item hitem) (hnumbers item hitem)
  | object pairs ih =>
      intro hkeys hplain hnumbers
      rw [distinctKeys_object_iff] at hkeys
      rw [unambiguous_object_iff] at hplain
      rw [numbersSatisfy_object_iff] at hnumbers
      exact exists_memberCalls hkeys.1 hplain.1 fun pair hpair =>
        ih pair hpair (hkeys.2 pair hpair) (hplain.2 pair hpair) (hnumbers pair hpair)
  | binary | date | time | timestamp => exact fun _ _ _ => exists_wrapperCall rfl rfl rfl

/-- An object in disguise is not told, however deep it lies. -/
theorem unambiguous_of_toCallTree {e : Entry} :
    ∀ {tree}, e.toCallTree = .ok tree → e.Unambiguous := by
  induction e using byShape with
  | array items ih =>
      intro tree h
      rw [toCallTree] at h
      split at h
      · cases h
      · next calls hcalls =>
          rw [itemCalls_eq_ok_iff] at hcalls
          rw [unambiguous_array_iff]
          intro item hitem
          obtain ⟨call, hcall⟩ := exists_forall₂_iff.mp ⟨calls, hcalls⟩ item hitem
          exact ih item hitem hcall
  | object pairs ih =>
      intro tree h
      rw [toCallTree] at h
      split at h
      · cases h
      · next hplain =>
          split at h
          · cases h
          · next calls hcalls =>
              rw [memberCalls_eq_ok_iff] at hcalls
              refine unambiguous_object_iff.mpr ⟨hplain, fun pair hpair => ?_⟩
              obtain ⟨call, -, hcall⟩ := exists_forall₂_iff.mp ⟨calls, hcalls⟩ pair hpair
              exact ih pair hpair hcall
  | null | boolean | number | string | binary | date | time | timestamp =>
      intro tree _
      exact (everywhere_leaf_iff (by simp) (by simp)).mpr trivial

/-- An entry with integers of 64 bits is told just when no object in it has the shape of a wrapper,
and just when a writer with enough levels accepts it. What is told has the lengths that it announces
and is read as the entry with its integers at scale zero, which equals the entry unless a number of
scale ten loses a carry. -/
theorem told_and_read {e : Entry} (hkeys : e.DistinctKeys)
    (hnumbers : e.NumbersSatisfy Decimal.IsWord) :
    ((∃ tree, e.toCallTree = .ok tree) ↔ e.Unambiguous) ∧
    (∀ options : WriterOptions, e.writingDepth ≤ options.maxDepth →
      ((∃ tree, e.toCallTree = .ok tree) ↔ ∃ text, e.write options = .ok text)) ∧
    ∀ tree, e.toCallTree = .ok tree →
      tree.Announced ∧ tree.toEntry = .ok (e.mapNumbers Decimal.integral) ∧
      ((e.mapNumbers Decimal.integral).same e = true ↔
        e.NumbersSatisfy fun d => ¬ d.CarryLost) := by
  have hplain : (∃ tree, e.toCallTree = .ok tree) ↔ e.Unambiguous := by
    constructor
    · rintro ⟨tree, htold⟩
      exact unambiguous_of_toCallTree htold
    · intro hplain
      obtain ⟨tree, htold, -⟩ := exists_toCallTree hkeys hplain hnumbers
      exact ⟨tree, htold⟩
  refine ⟨hplain, fun options hdepth => ?_, fun tree htold => ?_⟩
  · rw [hplain]
    simp only [write_eq_ok_iff, hdepth, true_and]
    simp
  · obtain ⟨told, htold', htells⟩ :=
      exists_toCallTree hkeys (hplain.mp ⟨tree, htold⟩) hnumbers
    rw [htold] at htold'
    injection htold' with htree
    subst htree
    refine ⟨htells.announced, htells.read, ?_⟩
    -- equality of the entries comes down to that of each number with its integer
    rw [same_mapNumbers_iff]
    simp only [numbersSatisfy_iff] at hnumbers ⊢
    exact forall₂_congr fun d hpart => (hnumbers d hpart).same_integral_iff

/-- A number of each kind of integer beside a date without payload, told and read back as an equal
entry; and a number of scale ten that is told and read back as an integer it does not equal. -/
theorem told_and_read_mixed :
    let e : Entry := .object ⟨[("a", .array [.number ⟨-150, 1⟩, .number ⟨18446744073709551615, 0⟩]),
      ("b", .date none)]⟩
    let carrying : Entry := .number ⟨79228162515331934720000000000, 10⟩
    (∃ tree, e.toCallTree = .ok tree ∧ tree.Announced ∧
      tree.toEntry = .ok (.object ⟨[("a", .array [.number ⟨-15, 0⟩,
        .number ⟨18446744073709551615, 0⟩]), ("b", .date none)]⟩) ∧
      (e.mapNumbers Decimal.integral).same e = true) ∧
    (∃ tree, carrying.toCallTree = .ok tree ∧
      tree.toEntry = .ok (.number ⟨7922816251533193472, 0⟩) ∧
      (number ⟨7922816251533193472, 0⟩).same carrying = false) := by
  intro e carrying
  have hfirst : (⟨-150, 1⟩ : Decimal).toRat = (-15 : Int) := by norm_num [Decimal.toRat]
  have hsecond : (⟨18446744073709551615, 0⟩ : Decimal).toRat = (18446744073709551615 : Int) := by
    norm_num [Decimal.toRat]
  have hthird : (⟨79228162515331934720000000000, 10⟩ : Decimal).toRat =
      (7922816251533193472 : Int) := by
    norm_num [Decimal.toRat]
  have hreadable : e.Readable 2 := by
    refine readable_object_iff.mpr ⟨by decide, rfl, ?_⟩
    have hitem (d : Decimal) : Readable 0 (.number d) := .of_leaf rfl
    simp [readable_array_iff, hitem, Readable.of_extended, kind]
  have hnumbers {Q : Decimal → Prop} (h₁ : Q ⟨-150, 1⟩) (h₂ : Q ⟨18446744073709551615, 0⟩) :
      e.NumbersSatisfy Q := by
    simp [e, NumbersSatisfy, everywhere_object_iff, everywhere_array_iff, everywhere_leaf_iff, h₁,
      h₂]
  constructor
  · obtain ⟨htold, -, hread⟩ := told_and_read hreadable.keys
      (hnumbers ⟨_, hfirst, by norm_num⟩ ⟨_, hsecond, by norm_num⟩)
    obtain ⟨tree, htree⟩ := htold.mpr hreadable.plain
    obtain ⟨hannounced, hback, hsame⟩ := hread tree htree
    refine ⟨tree, htree, hannounced, hback.trans ?_, hsame.mpr (hnumbers ?_ ?_)⟩
    · simp [e, mapNumbers, mapPairs, mapItems, Decimal.integral_of_toRat hfirst,
        Decimal.integral_of_toRat hsecond, Decimal.ofInt]
    · exact fun h => absurd h.1 (by decide)
    · exact fun h => absurd h.1 (by decide)
  · have hcarrying : carrying.Readable 0 := .of_leaf rfl
    obtain ⟨htold, -, hread⟩ := told_and_read hcarrying.keys
      (numbersSatisfy_number_iff.mpr ⟨_, hthird, by norm_num⟩)
    obtain ⟨tree, htree⟩ := htold.mpr hcarrying.plain
    obtain ⟨-, hback, hsame⟩ := hread tree htree
    have hintegral : carrying.mapNumbers Decimal.integral = .number ⟨7922816251533193472, 0⟩ := by
      simp [carrying, mapNumbers, Decimal.integral_of_toRat hthird, Decimal.ofInt]
    rw [hintegral] at hback hsame
    refine ⟨tree, htree, hback, ?_⟩
    rw [← Bool.not_eq_true, hsame, numbersSatisfy_number_iff, not_not,
      Decimal.carryLost_iff hthird]
    decide

end Entry

end ExtendedJson
