import ExtendedJson.Proofs.Rereading
import ExtendedJson.Proofs.ValueStorage

/-!
# Rows of values stored as text

A row of values is written as an object and read back as values again. Three things happen to it on
the way: values become entries, numbers of negative scale settle when their texts are read, and
entries become values. The first and the last are each other's inverse up to equality. The second
does not show either, and for two reasons: a settled number is the same number, and it has the same
plain text, which is what the objects around it are compared by.
-/

namespace ExtendedJson

/-! ## Settled texts -/

namespace Decimal

theorem toDigits_mul_pow10 {n : Nat} (h : n ≠ 0) (k : Nat) :
    Nat.toDigits 10 (n * pow10 k) = Nat.toDigits 10 n ++ List.replicate k '0' := by
  induction k with
  | zero =>
      rw [show pow10 0 = 1 from rfl, Nat.mul_one, List.replicate_zero, List.append_nil]
  | succ k ih =>
      have hpos : 0 < n * pow10 k := Nat.mul_pos (Nat.pos_of_ne_zero h) (Nat.pow_pos (by decide))
      have hnext : n * pow10 (k + 1) = 10 * (n * pow10 k) + 0 := by
        rw [show pow10 (k + 1) = pow10 k * 10 from rfl, ← Nat.mul_assoc, Nat.mul_comm 10,
          Nat.add_zero]
      rw [hnext, ← Nat.toDigits_append_toDigits (by decide) hpos (by decide), ih,
        List.replicate_succ', List.append_assoc]
      rfl

/-- Settling a number leaves its text as it is. A zero of negative scale would lose digits. -/
theorem plain_settled {d : Decimal} (h : d.Spellable) : d.settled.plain = d.plain := by
  by_cases hscale : d.scale < 0
  · have hne : d.unscaled ≠ 0 := h.resolve_left (by omega)
    have hpos : (0 : Int) < pow10 (-d.scale).toNat := by exact_mod_cast Nat.pow_pos (by decide)
    have hsign : d.unscaled * pow10 (-d.scale).toNat < 0 ↔ d.unscaled < 0 := by
      rw [← Int.sign_neg_iff, Int.sign_mul, Int.sign_eq_one_of_pos hpos, Int.mul_one,
        Int.sign_neg_iff]
    have hdigits : Nat.toDigits 10 (d.unscaled * pow10 (-d.scale).toNat).natAbs =
        d.digitText ++ List.replicate (-d.scale).toNat '0' := by
      rw [Int.natAbs_mul, Int.natAbs_natCast, toDigits_mul_pow10 (Int.natAbs_ne_zero.mpr hne),
        digitText]
    rw [settled_of_nonpos (by omega), plain, plain, if_pos (le_refl _), if_pos (by omega)]
    simp only [signText, digitText, hsign, hdigits]
    simp
  · rw [settled_of_nonneg (by omega)]

end Decimal

namespace Entry

theorem layoutItems_map {f : Entry → Entry} {items : List Entry}
    (h : ∀ item ∈ items, ∀ level, (f item).layout level = item.layout level) (level : Nat)
    (separator : List Piece) :
    layoutItems level separator (items.map f) = layoutItems level separator items := by
  induction items generalizing separator with
  | nil => rfl
  | cons item items ih =>
      rw [List.forall_mem_cons] at h
      rw [List.map_cons, layoutItems, layoutItems, h.1, ih h.2]

theorem layoutMembers_map {f : Entry → Entry} {pairs : List (String × Entry)}
    (h : ∀ pair ∈ pairs, ∀ level, (f pair.2).layout level = pair.2.layout level) (level : Nat)
    (separator : List Piece) :
    layoutMembers level separator (pairs.map fun pair => (pair.1, f pair.2)) =
      layoutMembers level separator pairs := by
  induction pairs generalizing separator with
  | nil => rfl
  | cons pair pairs ih =>
      obtain ⟨key, value⟩ := pair
      rw [List.forall_mem_cons] at h
      rw [List.map_cons, layoutMembers, layoutMembers, h.1, ih h.2]

theorem layout_settled {e : Entry} (h : e.NumbersSatisfy Decimal.Spellable) :
    ∀ level, (e.mapNumbers Decimal.settled).layout level = e.layout level := by
  induction e using byShape with
  | number d =>
      rw [numbersSatisfy_number_iff] at h
      intro level
      rw [mapNumbers, layout, layout, Decimal.plain_settled h]
  | array items ih =>
      rw [numbersSatisfy_array_iff] at h
      intro level
      rw [mapNumbers, layout, layout, mapItems_eq_map, List.isEmpty_map,
        layoutItems_map fun item hitem => ih item hitem (h item hitem)]
  | object pairs ih =>
      rw [numbersSatisfy_object_iff] at h
      intro level
      rw [mapNumbers, layout, layout, wrapper?_mapPairs, mapPairs_eq_map, List.isEmpty_map,
        layoutMembers_map fun pair hpair => ih pair hpair (h pair hpair)]
  | null | boolean | string | binary | date | time | timestamp => exact fun _ => rfl

theorem comparisonText_mapPairs {pairs : List (String × Entry)}
    (h : (object ⟨pairs⟩).NumbersSatisfy Decimal.Spellable) :
    Object.comparisonText ⟨mapPairs Decimal.settled pairs⟩ = Object.comparisonText ⟨pairs⟩ := by
  have hlayout := layout_settled h 0
  rw [mapNumbers] at hlayout
  rw [Object.comparisonText, Object.comparisonText, hlayout]

theorem same_toValue_settled {e : Entry} (h : e.NumbersSatisfy Decimal.Spellable) :
    e.settled.toValue.same e.toValue = true := by
  induction e using byShape with
  | number d =>
      have hcompare : d.settled.compare d = .eq := by simpa using Decimal.compare_settled d
      rw [Value.same_iff]
      exact congrArg Except.ok hcompare
  | array items ih =>
      rw [numbersSatisfy_array_iff] at h
      rw [settled, mapNumbers, toValue, toValue, Value.same_array_iff, toValues_eq_map,
        toValues_eq_map, mapItems_eq_map, List.map_map, List.forall₂_map_left_iff,
        List.forall₂_map_right_iff, List.forall₂_same]
      exact fun item hitem => ih item hitem (h item hitem)
  | object pairs _ =>
      refine Value.same_of_flatKey_eq rfl rfl ?_
      exact congrArg (fun text => Value.FlatKey.object (some text)) (comparisonText_mapPairs h)
  | null | boolean | string | binary | date | time | timestamp =>
      exact Value.equivalence_same.refl _

end Entry

/-! ## What the numbers and objects of a value are stored as -/

namespace Binary64

theorem RoundsTo.magnitude_eq_zero {x : Binary64} (h : RoundsTo x 0) : x.magnitude = 0 := by
  obtain ⟨p, hp, -, hzero⟩ := h
  by_contra hne
  have hpos : 0 < p := hp.pos (Nat.pos_of_ne_zero hne)
  split at hzero
  · exact hpos.ne (neg_eq_zero.mp hzero.symm).symm
  · exact hpos.ne hzero

theorem spellable_toDecimal {x : Binary64} {d : Decimal} (h : x.toDecimal? = some d) :
    d.Spellable := by
  by_cases hunscaled : d.unscaled = 0
  · have hround : RoundsTo x 0 := Decimal.toRat_eq_zero hunscaled ▸ roundsTo_toDecimal h
    have hzero : x.isZero = true := by simpa [isZero] using hround.magnitude_eq_zero
    unfold toDecimal? at h
    split at h
    · cases h
    split at h
    · cases h
      exact Or.inl (le_refl _)
    · rw [shortest, if_pos hzero] at h
      cases h
      exact Or.inl (le_refl _)
  · exact Or.inr hunscaled

end Binary64

namespace Value

/-- No object inside has a key twice. -/
def DistinctKeys (v : Value) : Prop :=
  ∀ leaf ∈ v.leaves, ∀ members, leaf = object (some members) → (Entry.object members).DistinctKeys

/-- Something holds of each decimal inside, and of each number in the objects inside. -/
def DecimalsSatisfy (Q : Decimal → Prop) (v : Value) : Prop :=
  ∀ leaf ∈ v.leaves, (∀ d, leaf = decimal d → Q d) ∧
    ∀ members, leaf = object (some members) → (Entry.object members).NumbersSatisfy Q

/-- What holds of every array, and everywhere in what the leaves are stored as, holds everywhere in
what the value is stored as. -/
theorem everywhere_toEntry {Q : Entry → Prop} (harray : ∀ items, Q (.array items)) {v : Value}
    {e : Entry} (h : v.toEntry = .ok e)
    (hleaves : ∀ leaf ∈ v.leaves, (∀ items, leaf ≠ array (some items)) →
      ∀ e, leaf.toEntry = .ok e → Entry.Everywhere Q e) : Entry.Everywhere Q e := by
  revert hleaves
  refine toEntry_induction ?_ ?_ h
  · intro v e hleaf h hleaves
    refine hleaves v ?_ hleaf e h
    rw [leaves]
    · exact List.mem_singleton_self v
    · exact hleaf
  · intro values items h hleaves
    rw [forall_leaves_array_iff] at hleaves
    exact Entry.everywhere_array_iff.mpr ⟨harray items, forall_mem_of_forall₂ h
      fun value hvalue _ himp => himp (hleaves value hvalue)⟩

/-- A leaf is stored as the object that it has, as a number, which is its own decimal or can be
spelled, or as an entry of another kind without entries inside. -/
theorem toEntry_leaf_cases {v : Value} {e : Entry} (hleaf : ∀ items, v ≠ array (some items))
    (h : v.toEntry = .ok e) :
    (∃ members, v = object (some members) ∧ e = .object members) ∨
      (∃ d, e = .number d ∧ (v = decimal d ∨ d.Spellable)) ∨
        (∀ items, e ≠ .array items) ∧ (∀ members, e ≠ .object members) ∧ ∀ d, e ≠ .number d := by
  cases v with
  | decimal d =>
      cases h
      exact .inr (.inl ⟨d, rfl, .inl rfl⟩)
  | double x =>
      obtain ⟨d, rfl, hd⟩ := ofBinary64_eq_ok h
      exact .inr (.inl ⟨d, rfl, .inr (Binary64.spellable_toDecimal hd)⟩)
  | integer n | long n =>
      cases h
      exact .inr (.inl ⟨_, rfl, .inr (.inl (le_refl _))⟩)
  | array payload =>
      cases payload with
      | none =>
          cases h
          simp
      | some items => exact absurd rfl (hleaf items)
  | object payload =>
      cases payload with
      | none =>
          cases h
          simp
      | some members =>
          cases h
          exact .inl ⟨members, rfl, rfl⟩
  | string payload => cases payload <;> cases h <;> simp
  | _ =>
      cases h
      simp

theorem DistinctKeys.toEntry {v : Value} {e : Entry} (hkeys : v.DistinctKeys)
    (h : v.toEntry = .ok e) : e.DistinctKeys := by
  refine everywhere_toEntry (fun _ => trivial) h fun leaf hmem hleaf e h => ?_
  obtain ⟨members, rfl, rfl⟩ | ⟨d, rfl, -⟩ | ⟨harray, hobject, -⟩ := toEntry_leaf_cases hleaf h
  · exact hkeys _ hmem members rfl
  · exact (Entry.everywhere_leaf_iff (by simp) (by simp)).mpr trivial
  · refine (Entry.everywhere_leaf_iff harray hobject).mpr ?_
    cases e with
    | object members => exact absurd rfl (hobject members)
    | _ => exact trivial

theorem DecimalsSatisfy.toEntry {v : Value} {e : Entry}
    (hnumbers : v.DecimalsSatisfy Decimal.Spellable) (h : v.toEntry = .ok e) :
    e.NumbersSatisfy Decimal.Spellable := by
  refine everywhere_toEntry (fun _ => trivial) h fun leaf hmem hleaf e h => ?_
  obtain ⟨members, rfl, rfl⟩ | ⟨d, rfl, hd⟩ | ⟨harray, hobject, hnumber⟩ :=
    toEntry_leaf_cases hleaf h
  · exact (hnumbers _ hmem).2 members rfl
  · exact Entry.numbersSatisfy_number_iff.mpr (hd.elim ((hnumbers _ hmem).1 d) id)
  · refine (Entry.everywhere_leaf_iff harray hobject).mpr ?_
    cases e with
    | number d => exact absurd rfl (hnumber d)
    | _ => exact trivial

end Value

/-! ## Rows -/

theorem rowToObject_eq_ok_iff {values : List Value} {o : Object} :
    rowToObject values = .ok o ↔
      ∃ items, Value.toItems values = .ok items ∧ o = ⟨[(rowKey, .array items)]⟩ := by
  rw [rowToObject]
  cases Value.toItems values with
  | error cause => simp
  | ok items => simp [eq_comm, Members.put, Members.putPairs, Members.empty]

/-- A row that is written as text is read back as a row of equal values, one for each, if reading
has enough levels for it. Keys of objects are distinct anyway. Beyond that, only zeros of negative
scale are written as what cannot be read, and only absent arrays and objects as something else. -/
theorem row_read_back {values : List Value} {o : Object} {text : String}
    (hrow : rowToObject values = .ok o) (hwrite : (Entry.object o).write = .ok text)
    (hkeys : ∀ v ∈ values, v.DistinctKeys) (hpresent : ∀ v ∈ values, v.Lossless)
    (hnumbers : ∀ v ∈ values, v.DecimalsSatisfy fun d => ¬(d.scale < 0 ∧ d.unscaled = 0))
    (hdepth : (Entry.object o).readingDepth ≤ 128) :
    ∃ read again, parseObject text = .ok read ∧ rowOfObject read = .ok again ∧
      List.Forall₂ (fun a b => a.same b = true) again values := by
  obtain ⟨items, hitems, rfl⟩ := rowToObject_eq_ok_iff.mp hrow
  -- the row is one array of values, and as such it is a value
  have hstored : (Value.array (some values)).toEntry = .ok (.array items) := by
    rw [Value.toEntry, hitems]
  have hequal : (Entry.array items).toValue.same (.array (some values)) = true :=
    (Value.same_toValue_iff hstored).mpr (Value.lossless_array_iff.mpr hpresent)
  have hdistinct : (Entry.array items).DistinctKeys :=
    Value.DistinctKeys.toEntry (Value.forall_leaves_array_iff.mpr hkeys) hstored
  simp only [← Decimal.spellable_iff] at hnumbers
  have hspell : (Entry.array items).NumbersSatisfy Decimal.Spellable :=
    Value.DecimalsSatisfy.toEntry (Value.forall_leaves_array_iff.mpr hnumbers) hstored
  -- what is read is the stored array as it settled
  obtain ⟨hplain, -, rfl⟩ := Entry.write_eq_ok_iff.mp hwrite
  have hreadable : (Entry.object ⟨[(rowKey, .array items)]⟩).Readable 128 := {
    keys := Entry.everywhere_object_iff.mpr
      ⟨List.nodup_singleton _, List.forall_mem_singleton.mpr hdistinct⟩
    plain := hplain
    depth := hdepth }
  have hnumbers : (Entry.object ⟨[(rowKey, .array items)]⟩).NumbersSatisfy Decimal.Spellable :=
    Entry.numbersSatisfy_object_iff.mpr (List.forall_mem_singleton.mpr hspell)
  refine ⟨_, Entry.toValues (Entry.mapItems Decimal.settled items),
    Entry.parseObject_layout hreadable hnumbers, rfl, ?_⟩
  rw [← Value.same_array_iff]
  exact Value.equivalence_same.trans (Entry.same_toValue_settled hspell) hequal

/-- Numbers that come back with other scales or as another kind, also in an object, which is
compared by its text. -/
theorem row_read_back_mixed :
    let values : List Value := [.decimal ⟨12, -3⟩, .double ⟨0x3FB999999999999A⟩,
      .array (some [.long 7, .string none]),
      .object (some ⟨[("a", .number ⟨5, -2⟩), ("b", .date none)]⟩)]
    let text := "\x7b\"value_array\":[12000,0.1,[7,null]," ++
      "\x7b\"a\":500,\"b\":\x7b\"%dt%\":null\x7d\x7d]\x7d"
    (∃ o, rowToObject values = .ok o ∧ (Entry.object o).write = .ok text) ∧
      ∃ read again, parseObject text = .ok read ∧ rowOfObject read = .ok again ∧
        List.Forall₂ (fun a b => a.same b = true) again values := by
  intro values text
  obtain ⟨o, hrow, hwrite, hdepth⟩ : ∃ o, rowToObject values = .ok o ∧
      (Entry.object o).write = .ok text ∧ (Entry.object o).readingDepth ≤ 128 :=
    ⟨⟨[("value_array", .array [.number ⟨12, -3⟩, .number ⟨1, 1⟩, .array [.number ⟨7, 0⟩, .null],
      .object ⟨[("a", .number ⟨5, -2⟩), ("b", .date none)]⟩])]⟩, by rfl, by decide +kernel, by decide⟩
  have hkeys : ∀ v ∈ values, v.DistinctKeys := by
    simp [values, Value.DistinctKeys, Value.leaves, Value.leavesOf, Entry.DistinctKeys,
      Entry.everywhere_object_iff, Entry.everywhere_leaf_iff]
  have hpresent : ∀ v ∈ values, v.Lossless := by
    simp [values, Value.Lossless, Value.leaves, Value.leavesOf]
  have hnumbers : ∀ v ∈ values, v.DecimalsSatisfy fun d => ¬(d.scale < 0 ∧ d.unscaled = 0) := by
    simp [values, Value.DecimalsSatisfy, Value.leaves, Value.leavesOf, Entry.NumbersSatisfy,
      Entry.everywhere_object_iff, Entry.everywhere_leaf_iff]
  exact ⟨⟨o, hrow, hwrite⟩, row_read_back hrow hwrite hkeys hpresent hnumbers hdepth⟩

end ExtendedJson
