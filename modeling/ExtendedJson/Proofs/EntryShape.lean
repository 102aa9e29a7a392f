import Mathlib.Data.List.Forall2
import ExtendedJson.Entry.Extended

/-!
# Entries as trees

What the other developments share about the shape of entries: lists whose elements go together one
by one, the induction that goes through items and members at once, the entries inside an entry, how
deep they lie, what of all this holds of an entry that was read, and changing every number. Arrays
and objects hold their entries in lists, so each recursion here comes with a function over a list,
and with a lemma that says it over the list itself.
-/

namespace ExtendedJson

/-! ## Lists in step -/

section Lists

variable {α β : Type}

/-- A relation between lists is that of their elements when it goes on element by element. -/
theorem forall₂_iff_of_cons {R : α → β → Prop} {S : List α → List β → Prop} {as : List α}
    {bs : List β} (hnil : ∀ bs, S [] bs ↔ bs = [])
    (hcons : ∀ a as bs, S (a :: as) bs ↔ ∃ b rest, R a b ∧ S as rest ∧ bs = b :: rest) :
    List.Forall₂ R as bs ↔ S as bs := by
  induction as generalizing bs with
  | nil => rw [hnil, List.forall₂_nil_left_iff]
  | cons a as ih => simp only [hcons, List.forall₂_cons_left_iff, ih]

theorem exists_forall₂_iff {R : α → β → Prop} {as : List α} :
    (∃ bs, List.Forall₂ R as bs) ↔ ∀ a ∈ as, ∃ b, R a b := by
  induction as with
  | nil => simp
  | cons a as ih =>
      rw [List.forall_mem_cons, ← ih]
      constructor
      · rintro ⟨_, _ | ⟨hhead, htail⟩⟩
        exact ⟨⟨_, hhead⟩, ⟨_, htail⟩⟩
      · rintro ⟨⟨_, hhead⟩, ⟨_, htail⟩⟩
        exact ⟨_, .cons hhead htail⟩

theorem forall_mem_of_forall₂ {R : α → β → Prop} {Q : β → Prop} {as : List α} {bs : List β}
    (h : List.Forall₂ R as bs) (hright : ∀ a ∈ as, ∀ b, R a b → Q b) : ∀ b ∈ bs, Q b := by
  induction h with
  | nil => exact fun _ hb => absurd hb List.not_mem_nil
  | cons hfirst _ ih =>
      rw [List.forall_mem_cons] at hright ⊢
      exact ⟨hright.1 _ hfirst, ih hright.2⟩

theorem forall_mem_iff_of_forall₂ {P : α → Prop} {Q : β → Prop} {as : List α} {bs : List β}
    (h : List.Forall₂ (fun a b => P a ↔ Q b) as bs) : (∀ a ∈ as, P a) ↔ ∀ b ∈ bs, Q b := by
  induction h with
  | nil => simp
  | cons hfirst _ ih => rw [List.forall_mem_cons, List.forall_mem_cons, hfirst, ih]

theorem forall₂_congr_of_mem {R S : α → β → Prop} {as : List α} {bs : List β}
    (h : ∀ a ∈ as, ∀ {b}, R a b ↔ S a b) : List.Forall₂ R as bs ↔ List.Forall₂ S as bs := by
  induction as generalizing bs with
  | nil => simp
  | cons a as ih =>
      rw [List.forall_mem_cons] at h
      simp only [List.forall₂_cons_left_iff, h.1, ih h.2]

theorem forall₂_of_both {R S Q : α → β → Prop} {as : List α} {bs : List β}
    (h : ∀ a ∈ as, ∀ {b}, R a b → S a b → Q a b) (hR : List.Forall₂ R as bs)
    (hS : List.Forall₂ S as bs) : List.Forall₂ Q as bs := by
  induction hR with
  | nil => exact .nil
  | cons hfirst _ ih =>
      rw [List.forall_mem_cons] at h
      cases hS with
      | cons hfirst' hrest => exact .cons (h.1 hfirst hfirst') (ih h.2 hrest)

theorem map_eq_map_of_forall₂ {γ : Type} {R : α → β → Prop} {f : α → γ} {g : β → γ} {as : List α}
    {bs : List β} (h : ∀ a ∈ as, ∀ {b}, R a b → f a = g b) (hR : List.Forall₂ R as bs) :
    as.map f = bs.map g := by
  induction hR with
  | nil => rfl
  | cons hfirst _ ih =>
      rw [List.forall_mem_cons] at h
      rw [List.map_cons, List.map_cons, h.1 hfirst, ih h.2]

end Lists

namespace Entry

/-! ## Induction -/

/-- Induction over entries, with the hypothesis for all items of an array and all values of an
object. -/
@[elab_as_elim]
theorem byShape {P : Entry → Prop} (null : P .null) (boolean : ∀ value, P (.boolean value))
    (number : ∀ value, P (.number value)) (string : ∀ value, P (.string value))
    (array : ∀ items, (∀ item ∈ items, P item) → P (.array items))
    (object : ∀ pairs, (∀ pair ∈ pairs, P pair.2) → P (.object ⟨pairs⟩))
    (binary : ∀ payload, P (.binary payload)) (date : ∀ payload, P (.date payload))
    (time : ∀ payload, P (.time payload)) (timestamp : ∀ payload, P (.timestamp payload)) :
    ∀ e, P e
  | .null => null
  | .boolean value => boolean value
  | .number value => number value
  | .string value => string value
  | .array items => array items fun item _ =>
    byShape null boolean number string array object binary date time timestamp item
  | .object ⟨pairs⟩ => object pairs fun pair _ =>
    byShape null boolean number string array object binary date time timestamp pair.2
  | .binary payload => binary payload
  | .date payload => date payload
  | .time payload => time payload
  | .timestamp payload => timestamp payload
termination_by e => sizeOf e
decreasing_by
  · rename_i h
    have := List.sizeOf_lt_of_mem h
    simp only [Entry.array.sizeOf_spec]
    omega
  · rename_i h
    have hpair := List.sizeOf_lt_of_mem h
    have hvalue : sizeOf pair.2 < sizeOf pair := by
      obtain ⟨key, value⟩ := pair
      simp only [Prod.mk.sizeOf_spec]
      omega
    simp only [Entry.object.sizeOf_spec, Members.mk.sizeOf_spec]
    omega

/-! ## The entries inside -/

/-- An entry is a part of itself, and the parts of what an array or an object holds are its own. -/
inductive Part : Entry → Entry → Prop where
  | self (e : Entry) : Part e e
  | item {part item : Entry} {items : List Entry} (mem : item ∈ items) (inside : Part part item) :
    Part part (.array items)
  | member {part : Entry} {pair : String × Entry} {pairs : List (String × Entry)}
    (mem : pair ∈ pairs) (inside : Part part pair.2) : Part part (.object ⟨pairs⟩)

/-- Whether something holds of an entry and of all entries inside. -/
def Everywhere (Q : Entry → Prop) (e : Entry) : Prop := ∀ part, Part part e → Q part

section Everywhere

variable {Q : Entry → Prop}

theorem Everywhere.self {e : Entry} (h : Everywhere Q e) : Q e := h e (.self e)

theorem everywhere_array_iff {items : List Entry} :
    Everywhere Q (.array items) ↔ Q (.array items) ∧ ∀ item ∈ items, Everywhere Q item := by
  constructor
  · exact fun h => ⟨h.self, fun item hitem part hpart => h part (.item hitem hpart)⟩
  · intro h part hpart
    obtain ⟨hself, hitems⟩ := h
    cases hpart with
    | self => exact hself
    | item hmem hinside => exact hitems _ hmem part hinside

theorem everywhere_object_iff {pairs : List (String × Entry)} :
    Everywhere Q (.object ⟨pairs⟩) ↔
      Q (.object ⟨pairs⟩) ∧ ∀ pair ∈ pairs, Everywhere Q pair.2 := by
  constructor
  · exact fun h => ⟨h.self, fun pair hpair part hpart => h part (.member hpair hpart)⟩
  · intro h part hpart
    obtain ⟨hself, hpairs⟩ := h
    cases hpart with
    | self => exact hself
    | member hmem hinside => exact hpairs _ hmem part hinside

theorem everywhere_leaf_iff {e : Entry} (harray : ∀ items, e ≠ .array items)
    (hobject : ∀ members, e ≠ .object members) : Everywhere Q e ↔ Q e := by
  refine ⟨Everywhere.self, fun hself part hpart => ?_⟩
  cases hpart with
  | self => exact hself
  | item => exact absurd rfl (harray _)
  | member => exact absurd rfl (hobject _)

end Everywhere

/-- No object inside has a key twice. -/
def DistinctKeys : Entry → Prop := Everywhere fun
  | .object ⟨pairs⟩ => (pairs.map Prod.fst).Nodup
  | _ => True

/-- No object inside would be taken for the wrapper of an extended entry. -/
def Unambiguous : Entry → Prop := Everywhere fun
  | .object members => Object.wrapper? members = none
  | _ => True

theorem distinctKeys_array_iff {items : List Entry} :
    (array items).DistinctKeys ↔ ∀ item ∈ items, item.DistinctKeys := by
  rw [DistinctKeys, everywhere_array_iff]
  exact and_iff_right trivial

theorem distinctKeys_object_iff {pairs : List (String × Entry)} :
    (object ⟨pairs⟩).DistinctKeys ↔
      (pairs.map Prod.fst).Nodup ∧ ∀ pair ∈ pairs, pair.2.DistinctKeys :=
  everywhere_object_iff

theorem unambiguous_array_iff {items : List Entry} :
    (array items).Unambiguous ↔ ∀ item ∈ items, item.Unambiguous := by
  rw [Unambiguous, everywhere_array_iff]
  exact and_iff_right trivial

theorem unambiguous_object_iff {pairs : List (String × Entry)} :
    (object ⟨pairs⟩).Unambiguous ↔
      Object.wrapper? ⟨pairs⟩ = none ∧ ∀ pair ∈ pairs, pair.2.Unambiguous :=
  everywhere_object_iff

/-- Something holds of each number inside. -/
def NumbersSatisfy (Q : Decimal → Prop) : Entry → Prop := Everywhere fun
  | .number value => Q value
  | _ => True

theorem numbersSatisfy_iff {Q : Decimal → Prop} {e : Entry} :
    e.NumbersSatisfy Q ↔ ∀ d, Part (.number d) e → Q d := by
  constructor
  · exact fun h d hpart => h (.number d) hpart
  · intro h part hpart
    cases part with
    | number d => exact h d hpart
    | _ => exact trivial

theorem numbersSatisfy_and_iff {Q R : Decimal → Prop} {e : Entry} :
    e.NumbersSatisfy (fun d => Q d ∧ R d) ↔ e.NumbersSatisfy Q ∧ e.NumbersSatisfy R := by
  simp only [numbersSatisfy_iff, forall_and]

theorem numbersSatisfy_number_iff {Q : Decimal → Prop} {d : Decimal} :
    (number d).NumbersSatisfy Q ↔ Q d :=
  everywhere_leaf_iff (by simp) (by simp)

theorem numbersSatisfy_array_iff {Q : Decimal → Prop} {items : List Entry} :
    (array items).NumbersSatisfy Q ↔ ∀ item ∈ items, item.NumbersSatisfy Q := by
  rw [NumbersSatisfy, everywhere_array_iff]
  exact and_iff_right trivial

theorem numbersSatisfy_object_iff {Q : Decimal → Prop} {pairs : List (String × Entry)} :
    (object ⟨pairs⟩).NumbersSatisfy Q ↔ ∀ pair ∈ pairs, pair.2.NumbersSatisfy Q := by
  rw [NumbersSatisfy, everywhere_object_iff]
  exact and_iff_right trivial

/-! ## Depth -/

mutual

/-- How deep brackets nest, where brackets without entries inside, those of empty arrays and objects
and of wrappers, count for `flat`. -/
def depthWith (flat : Nat) : Entry → Nat
  | .array items => if items.isEmpty then flat else depthItems flat items + 1
  | .object ⟨pairs⟩ => if pairs.isEmpty then flat else depthPairs flat pairs + 1
  | .binary _ | .date _ | .time _ | .timestamp _ => flat
  | _ => 0

def depthItems (flat : Nat) : List Entry → Nat
  | [] => 0
  | item :: items => max (depthWith flat item) (depthItems flat items)

def depthPairs (flat : Nat) : List (String × Entry) → Nat
  | [] => 0
  | (_, value) :: pairs => max (depthWith flat value) (depthPairs flat pairs)

end

/-- The levels that reading an entry takes: all brackets count. -/
def readingDepth (e : Entry) : Nat := e.depthWith 1

/-- The levels that writing an entry takes: only brackets with entries inside count. -/
def writingDepth (e : Entry) : Nat := e.depthWith 0

theorem depthItems_le_iff {flat n : Nat} {items : List Entry} :
    depthItems flat items ≤ n ↔ ∀ item ∈ items, depthWith flat item ≤ n := by
  induction items with
  | nil => simp [depthItems]
  | cons item items ih => rw [List.forall_mem_cons, ← ih, ← Nat.max_le, depthItems]

theorem depthPairs_le_iff {flat n : Nat} {pairs : List (String × Entry)} :
    depthPairs flat pairs ≤ n ↔ ∀ pair ∈ pairs, depthWith flat pair.2 ≤ n := by
  induction pairs with
  | nil => simp [depthPairs]
  | cons pair pairs ih => rw [List.forall_mem_cons, ← ih, ← Nat.max_le, depthPairs]

theorem readingDepth_array (items : List Entry) :
    (array items).readingDepth = depthItems 1 items + 1 := by
  rw [readingDepth, depthWith]
  cases items <;> rfl

theorem readingDepth_object (pairs : List (String × Entry)) :
    (object ⟨pairs⟩).readingDepth = depthPairs 1 pairs + 1 := by
  rw [readingDepth, depthWith]
  cases pairs <;> rfl

theorem level_add_depth_array_le_iff {flat level n : Nat} {items : List Entry} (h : items ≠ []) :
    level + depthWith flat (.array items) ≤ n ↔
      level + 1 ≤ n ∧ ∀ item ∈ items, level + 1 + depthWith flat item ≤ n := by
  rw [depthWith, if_neg (by simpa using h)]
  constructor
  · intro hle
    refine ⟨by omega, fun item hitem => ?_⟩
    have := depthItems_le_iff.mp (Nat.le_refl (depthItems flat items)) item hitem
    omega
  · intro h
    obtain ⟨hlevel, hitems⟩ := h
    have : depthItems flat items ≤ n - (level + 1) :=
      depthItems_le_iff.mpr fun item hitem => by have := hitems item hitem; omega
    omega

theorem level_add_depth_object_le_iff {flat level n : Nat} {pairs : List (String × Entry)}
    (h : pairs ≠ []) :
    level + depthWith flat (.object ⟨pairs⟩) ≤ n ↔
      level + 1 ≤ n ∧ ∀ pair ∈ pairs, level + 1 + depthWith flat pair.2 ≤ n := by
  rw [depthWith, if_neg (by simpa using h)]
  constructor
  · intro hle
    refine ⟨by omega, fun pair hpair => ?_⟩
    have := depthPairs_le_iff.mp (Nat.le_refl (depthPairs flat pairs)) pair hpair
    omega
  · intro h
    obtain ⟨hlevel, hpairs⟩ := h
    have : depthPairs flat pairs ≤ n - (level + 1) :=
      depthPairs_le_iff.mpr fun pair hpair => by have := hpairs pair hpair; omega
    omega

/-- Writing takes no more levels than reading. -/
theorem writingDepth_le_readingDepth (e : Entry) : e.writingDepth ≤ e.readingDepth := by
  induction e using byShape with
  | array items ih =>
      rw [readingDepth_array, writingDepth, depthWith]
      split
      · exact Nat.zero_le _
      · rw [Nat.add_le_add_iff_right, depthItems_le_iff]
        exact fun item hitem => Nat.le_trans (ih item hitem)
          (depthItems_le_iff.mp (Nat.le_refl _) item hitem)
  | object pairs ih =>
      rw [readingDepth_object, writingDepth, depthWith]
      split
      · exact Nat.zero_le _
      · rw [Nat.add_le_add_iff_right, depthPairs_le_iff]
        exact fun pair hpair => Nat.le_trans (ih pair hpair)
          (depthPairs_le_iff.mp (Nat.le_refl _) pair hpair)
  | null | boolean | number | string | binary | date | time | timestamp => exact Nat.zero_le _

/-! ## What a reader returns -/

/-- What is true of every entry that a reader with some levels left returns. -/
structure Readable (levels : Nat) (e : Entry) : Prop where
  keys : e.DistinctKeys
  plain : e.Unambiguous
  depth : e.readingDepth ≤ levels

section Readable

variable {levels : Nat} {items : List Entry} {pairs : List (String × Entry)}

theorem readable_array_iff :
    Readable (levels + 1) (.array items) ↔ ∀ item ∈ items, Readable levels item := by
  constructor
  · intro h item hitem
    have hdepth := h.depth
    rw [readingDepth_array, Nat.add_le_add_iff_right, depthItems_le_iff] at hdepth
    exact {
      keys := distinctKeys_array_iff.mp h.keys item hitem
      plain := unambiguous_array_iff.mp h.plain item hitem
      depth := hdepth item hitem }
  · intro h
    refine ⟨distinctKeys_array_iff.mpr fun item hitem => (h item hitem).keys,
      unambiguous_array_iff.mpr fun item hitem => (h item hitem).plain, ?_⟩
    rw [readingDepth_array, Nat.add_le_add_iff_right, depthItems_le_iff]
    exact fun item hitem => (h item hitem).depth

theorem readable_object_iff :
    Readable (levels + 1) (.object ⟨pairs⟩) ↔ (pairs.map Prod.fst).Nodup ∧
      Object.wrapper? ⟨pairs⟩ = none ∧ ∀ pair ∈ pairs, Readable levels pair.2 := by
  constructor
  · intro h
    have hdepth := h.depth
    rw [readingDepth_object, Nat.add_le_add_iff_right, depthPairs_le_iff] at hdepth
    obtain ⟨hkeys, hvalueKeys⟩ := distinctKeys_object_iff.mp h.keys
    obtain ⟨hplain, hvaluePlain⟩ := unambiguous_object_iff.mp h.plain
    refine ⟨hkeys, hplain, fun pair hpair => ?_⟩
    exact {
      keys := hvalueKeys pair hpair
      plain := hvaluePlain pair hpair
      depth := hdepth pair hpair }
  · intro h
    obtain ⟨hkeys, hplain, h⟩ := h
    refine ⟨distinctKeys_object_iff.mpr ⟨hkeys, fun pair hpair => (h pair hpair).keys⟩,
      unambiguous_object_iff.mpr ⟨hplain, fun pair hpair => (h pair hpair).plain⟩, ?_⟩
    rw [readingDepth_object, Nat.add_le_add_iff_right, depthPairs_le_iff]
    exact fun pair hpair => (h pair hpair).depth

/-- An array takes a level, and so do an object and a wrapper. -/
theorem Readable.exists_levels {e : Entry} (h : Readable levels e) (hflat : e.readingDepth ≠ 0) :
    ∃ inner, levels = inner + 1 := by
  have := h.depth
  exact ⟨levels - 1, by omega⟩

end Readable

/-! ## Changing numbers -/

mutual

/-- An entry with every number in it changed. -/
def mapNumbers (f : Decimal → Decimal) : Entry → Entry
  | .number value => .number (f value)
  | .array items => .array (mapItems f items)
  | .object ⟨pairs⟩ => .object ⟨mapPairs f pairs⟩
  | other => other

def mapItems (f : Decimal → Decimal) : List Entry → List Entry
  | [] => []
  | item :: items => mapNumbers f item :: mapItems f items

def mapPairs (f : Decimal → Decimal) : List (String × Entry) → List (String × Entry)
  | [] => []
  | (key, value) :: pairs => (key, mapNumbers f value) :: mapPairs f pairs

end

theorem mapItems_eq_map (f : Decimal → Decimal) (items : List Entry) :
    mapItems f items = items.map (mapNumbers f) := by
  induction items with
  | nil => rfl
  | cons item items ih => rw [mapItems, ih, List.map_cons]

theorem mapPairs_eq_map (f : Decimal → Decimal) (pairs : List (String × Entry)) :
    mapPairs f pairs = pairs.map fun pair => (pair.1, mapNumbers f pair.2) := by
  induction pairs with
  | nil => rfl
  | cons pair pairs ih => rw [mapPairs, ih, List.map_cons]

/-! ## One structure -/

/-- Entries of one structure: the same kinds and payloads throughout, and in objects the same keys in
the same order. What is asked of two numbers is left to `R`. -/
inductive Alike (R : Decimal → Decimal → Prop) : Entry → Entry → Prop where
  | null : Alike R .null .null
  | boolean (value : Bool) : Alike R (.boolean value) (.boolean value)
  | number {a b : Decimal} (related : R a b) : Alike R (.number a) (.number b)
  | string (value : String) : Alike R (.string value) (.string value)
  | array {as bs : List Entry} (items : List.Forall₂ (Alike R) as bs) :
    Alike R (.array as) (.array bs)
  | object {as bs : List (String × Entry)} (keys : as.map Prod.fst = bs.map Prod.fst)
    (values : List.Forall₂ (Alike R) (as.map Prod.snd) (bs.map Prod.snd)) :
    Alike R (.object ⟨as⟩) (.object ⟨bs⟩)
  | binary (payload : Option (List UInt8)) : Alike R (.binary payload) (.binary payload)
  | date (payload : Option Date) : Alike R (.date payload) (.date payload)
  | time (payload : Option TimeOfDay) : Alike R (.time payload) (.time payload)
  | timestamp (payload : Option Timestamp) : Alike R (.timestamp payload) (.timestamp payload)

section Alike

variable {R : Decimal → Decimal → Prop}

theorem Alike.refl (hrefl : ∀ d, R d d) (e : Entry) : Alike R e e := by
  induction e using byShape with
  | null => exact .null
  | boolean value => exact .boolean value
  | number value => exact .number (hrefl value)
  | string value => exact .string value
  | array items ih => exact .array (List.forall₂_same.mpr ih)
  | object pairs ih =>
      refine .object rfl (List.forall₂_same.mpr ?_)
      rw [List.forall_mem_map]
      exact ih
  | binary payload => exact .binary payload
  | date payload => exact .date payload
  | time payload => exact .time payload
  | timestamp payload => exact .timestamp payload

theorem forall₂_members_iff {as bs : List (String × Entry)} :
    List.Forall₂ (fun a b => a.1 = b.1 ∧ Alike R a.2 b.2) as bs ↔
      as.map Prod.fst = bs.map Prod.fst ∧
        List.Forall₂ (Alike R) (as.map Prod.snd) (bs.map Prod.snd) := by
  induction as generalizing bs with
  | nil => cases bs <;> simp
  | cons a as ih =>
      cases bs with
      | nil => simp
      | cons b bs =>
          simp only [List.forall₂_cons, ih, List.map_cons, List.cons.injEq]
          exact and_and_and_comm

theorem alike_array_iff {as bs : List Entry} :
    Alike R (.array as) (.array bs) ↔ List.Forall₂ (Alike R) as bs := by
  constructor
  · intro h
    cases h with
    | array hitems => exact hitems
  · exact .array

theorem alike_object_iff {as bs : List (String × Entry)} :
    Alike R (.object ⟨as⟩) (.object ⟨bs⟩) ↔
      List.Forall₂ (fun a b => a.1 = b.1 ∧ Alike R a.2 b.2) as bs := by
  rw [forall₂_members_iff]
  constructor
  · intro h
    cases h with
    | object hkeys hvalues => exact ⟨hkeys, hvalues⟩
  · exact fun h => .object h.1 h.2

/-- What follows of two numbers from two relations follows of two entries. -/
theorem Alike.of_both {S Q : Decimal → Decimal → Prop} (h : ∀ d e, R d e → S d e → Q d e)
    {a : Entry} : ∀ {b : Entry}, Alike R a b → Alike S a b → Alike Q a b := by
  induction a using byShape with
  | number d =>
      intro b hR hS
      cases hR with
      | number hdR =>
          cases hS with
          | number hdS => exact .number (h _ _ hdR hdS)
  | array items ih =>
      intro b hR hS
      cases hR with
      | array hitems =>
          exact .array (forall₂_of_both ih hitems (alike_array_iff.mp hS))
  | object pairs ih =>
      intro b hR hS
      cases hR with
      | object hkeys hvalues =>
          refine alike_object_iff.mpr (forall₂_of_both (fun pair hpair other hR hS => ?_)
            (forall₂_members_iff.mpr ⟨hkeys, hvalues⟩) (alike_object_iff.mp hS))
          exact ⟨hR.1, ih pair hpair hR.2 hS.2⟩
  | null | boolean | string | binary | date | time | timestamp =>
      intro b hR _
      cases hR
      constructor

/-- Objects of one structure are both wrappers, and of the same, or neither is one. -/
theorem wrapper?_of_alike {as bs : List (String × Entry)}
    (h : List.Forall₂ (fun a b => a.1 = b.1 ∧ Alike R a.2 b.2) as bs) :
    Object.wrapper? ⟨as⟩ = Object.wrapper? ⟨bs⟩ := by
  cases h with
  | nil => rfl
  | @cons a b as bs hpair hrest =>
      obtain ⟨key, a⟩ := a
      obtain ⟨other, b⟩ := b
      obtain ⟨rfl, halike⟩ := hpair
      cases hrest with
      | cons _ _ => simp [Object.wrapper?]
      | nil => cases halike <;> rfl

theorem Alike.unambiguous_iff {a : Entry} :
    ∀ {b : Entry}, Alike R a b → (a.Unambiguous ↔ b.Unambiguous) := by
  induction a using byShape with
  | array items ih =>
      intro b h
      cases h with
      | @array _ others hitems =>
          rw [unambiguous_array_iff, unambiguous_array_iff]
          exact forall_mem_iff_of_forall₂
            (((List.forall₂_and_left items others).mpr ⟨ih, hitems⟩).imp fun a b h => h.1 h.2)
  | object pairs ih =>
      intro b h
      cases h with
      | @object _ others hkeys hvalues =>
          have hpairs := forall₂_members_iff.mpr ⟨hkeys, hvalues⟩
          rw [unambiguous_object_iff, unambiguous_object_iff, wrapper?_of_alike hpairs]
          exact and_congr_right' (forall_mem_iff_of_forall₂
            (((List.forall₂_and_left pairs others).mpr ⟨ih, hpairs⟩).imp fun a b h => h.1 h.2.2))
  | null | boolean | number | string | binary | date | time | timestamp =>
      intro b h
      refine iff_of_true ((everywhere_leaf_iff (by simp) (by simp)).mpr trivial) ?_
      cases h
      exact (everywhere_leaf_iff (by simp) (by simp)).mpr trivial

end Alike

end Entry

end ExtendedJson
