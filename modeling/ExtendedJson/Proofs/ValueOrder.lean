import ExtendedJson.Proofs.NumberOrder

/-!
# The order of values is lawful

Comparing values may fail, so the laws of an order are stated here for comparisons with a verdict
that may be an error. A value is compared in two steps, first by what it is without its items and
then by them, and a list of items in as many steps as it has items. One step after another keeps the
laws, although the verdicts on three pairs of values may come from different steps.
-/

namespace ExtendedJson

/-! ## Verdicts -/

/-- The verdict on two values the other way around. -/
def reversed : Except Error Ordering → Except Error Ordering
  | .ok ordering => .ok ordering.swap
  | .error (.notComparable left right) => .error (.notComparable right left)
  | .error other => .error other

/-- The verdict of a first step, or that of a second when the first finds no difference. -/
def andThen (first second : Except Error Ordering) : Except Error Ordering :=
  match first with
  | .ok .eq => second
  | verdict => verdict

/-- Verdicts on the first and the second of three values, the second and the third, and the first
and the third go together. -/
def Chains (first second both : Except Error Ordering) : Prop :=
  ∀ o₁ o₂, first = .ok o₁ → second = .ok o₂ → o₁ ≠ .gt → o₂ ≠ .gt → both = .ok (o₁.then o₂)

theorem reversed_andThen (first second : Except Error Ordering) :
    reversed (andThen first second) = andThen (reversed first) (reversed second) := by
  cases first with
  | ok ordering => cases ordering <;> rfl
  | error cause => cases cause <;> rfl

theorem andThen_eq_ok {first second : Except Error Ordering} {o : Ordering}
    (h : andThen first second = .ok o) (hne : o ≠ .gt) :
    (first = .ok .lt ∧ o = .lt) ∨ (first = .ok .eq ∧ second = .ok o) := by
  cases first with
  | error cause => simp [andThen] at h
  | ok ordering =>
      cases ordering with
      | lt => exact Or.inl ⟨rfl, (Except.ok.inj h).symm⟩
      | eq => exact Or.inr ⟨rfl, h⟩
      | gt => exact absurd (Except.ok.inj h).symm hne

theorem andThen_eq_ok_eq_iff {first second : Except Error Ordering} :
    andThen first second = .ok .eq ↔ first = .ok .eq ∧ second = .ok .eq := by
  constructor
  · intro h
    rcases andThen_eq_ok h (by decide) with ⟨-, hlt⟩ | hboth
    · cases hlt
    · exact hboth
  · rintro ⟨rfl, rfl⟩
    rfl

theorem andThen_eq_error {first second : Except Error Ordering} {cause : Error}
    (h : andThen first second = .error cause) : first = .error cause ∨ second = .error cause := by
  cases first with
  | error _ => exact Or.inl h
  | ok ordering =>
      cases ordering with
      | eq => exact Or.inr h
      | lt | gt => simp [andThen] at h

/-- One step after another keeps verdicts together. -/
theorem Chains.andThen {first second both first' second' both' : Except Error Ordering}
    (h : Chains first second both) (h' : Chains first' second' both') :
    Chains (ExtendedJson.andThen first first') (ExtendedJson.andThen second second')
      (ExtendedJson.andThen both both') := by
  intro o₁ o₂ hfirst hsecond hne₁ hne₂
  rcases andThen_eq_ok hfirst hne₁ with ⟨hlt₁, rfl⟩ | ⟨heq₁, hfirst'⟩
  · rcases andThen_eq_ok hsecond hne₂ with ⟨hlt₂, -⟩ | ⟨heq₂, -⟩
    · rw [h .lt .lt hlt₁ hlt₂ (by decide) (by decide)]
      rfl
    · rw [h .lt .eq hlt₁ heq₂ (by decide) (by decide)]
      rfl
  · rcases andThen_eq_ok hsecond hne₂ with ⟨hlt₂, rfl⟩ | ⟨heq₂, hsecond'⟩
    · rw [h .eq .lt heq₁ hlt₂ (by decide) (by decide)]
      cases o₁ with
      | lt => rfl
      | eq => rfl
      | gt => exact absurd rfl hne₁
    · rw [h .eq .eq heq₁ heq₂ (by decide) (by decide)]
      exact h' o₁ o₂ hfirst' hsecond' hne₁ hne₂

/-- The laws of an order for a value and any others. -/
structure Lawful {α : Type} (cmp : α → α → Except Error Ordering) (a : α) : Prop where
  self : cmp a a = .ok .eq
  swap : ∀ b, cmp b a = reversed (cmp a b)
  chain : ∀ b c, Chains (cmp a b) (cmp b c) (cmp a c)
  refusal : ∀ b cause, cmp a b = .error cause → ∃ left right, cause = .notComparable left right

theorem compare_then {α : Type} {cmp : α → α → Ordering} [Std.TransCmp cmp] {a b c : α}
    (hab : cmp a b ≠ .gt) (hbc : cmp b c ≠ .gt) : cmp a c = (cmp a b).then (cmp b c) := by
  cases h : cmp a b with
  | lt => exact Std.TransCmp.lt_of_lt_of_isLE h (Ordering.isLE_iff_ne_gt.mpr hbc)
  | eq => exact Std.TransCmp.congr_left h
  | gt => exact absurd h hab

instance : Std.TransOrd Date :=
  inferInstanceAs (Std.TransCmp (compareLex _ _))

instance : Std.TransOrd TimeOfDay :=
  inferInstanceAs (Std.TransCmp (compareLex _ _))

instance : Std.TransOrd Timestamp :=
  inferInstanceAs (Std.TransCmp (compareLex _ _))

namespace Value

/-! ## Flat values -/

/-- What a value is compared by when its items are left aside. -/
inductive FlatKey where
  | number (key : NumericKey)
  | boolean (value : Bool)
  | date (payload : Option Date)
  | time (payload : Option TimeOfDay)
  | timestamp (payload : Option Timestamp)
  | string (payload : Option String)
  | binary (payload : Option (List UInt8))
  | array (present : Bool)
  | object (text : Option (List Char))

def FlatKey.compare? : FlatKey → FlatKey → Option Ordering
  | number a, number b => some (a.compare b)
  | boolean a, boolean b => some (Ord.compare a b)
  | date a, date b => some (Ord.compare a b)
  | time a, time b => some (Ord.compare a b)
  | timestamp a, timestamp b => some (Ord.compare a b)
  | string a, string b => some (Ord.compare a b)
  | binary a, binary b => some (Ord.compare a b)
  | array a, array b => some (Ord.compare a b)
  | object a, object b => some (Ord.compare a b)
  | _, _ => none

def flatKey : Value → FlatKey
  | boolean value => .boolean value
  | decimal value => .number (.finite value)
  | double value => .number (.ofBinary64 value)
  | integer value => .number (.finite (Decimal.ofInt value.toInt))
  | long value => .number (.finite (Decimal.ofInt value.toInt))
  | date payload => .date payload
  | time payload => .time payload
  | timestamp payload => .timestamp payload
  | string payload => .string payload
  | binary payload => .binary payload
  | array payload => .array payload.isSome
  | object payload => .object (payload.map Object.comparisonText)

theorem FlatKey.compare?_self (k : FlatKey) : k.compare? k = some .eq := by
  cases k <;> exact congrArg some Std.ReflCmp.compare_self

theorem FlatKey.compare?_swap (k l : FlatKey) :
    l.compare? k = (k.compare? l).map Ordering.swap := by
  cases k <;> cases l <;> first | rfl | exact congrArg some Std.OrientedCmp.eq_swap

/-- Keys that are compared at all are of one sort, and each sort has an order of its own. -/
theorem FlatKey.compare?_then {k l m : FlatKey} {o₁ o₂ : Ordering} (hkl : k.compare? l = some o₁)
    (hlm : l.compare? m = some o₂) (hne₁ : o₁ ≠ .gt) (hne₂ : o₂ ≠ .gt) :
    k.compare? m = some (o₁.then o₂) := by
  cases k <;> cases l <;> try contradiction
  all_goals
    cases m <;> try contradiction
    cases hkl
    cases hlm
    exact congrArg some (compare_then hne₁ hne₂)

theorem compareFlat_eq (a b : Value) :
    compareFlat a b =
      match a.flatKey.compare? b.flatKey with
      | some ordering => .ok ordering
      | none => .error (.notComparable a.kind.name b.kind.name) := by
  unfold compareFlat
  rw [compareNumbers?_eq]
  cases a <;> cases b <;> rfl

theorem compare?_of_compareFlat {a b : Value} {o : Ordering} (h : compareFlat a b = .ok o) :
    a.flatKey.compare? b.flatKey = some o := by
  rw [compareFlat_eq] at h
  split at h
  · next hkey => rw [hkey, Except.ok.inj h]
  · simp at h

/-- Flat values are compared lawfully. Only values without a common sort of keys are not comparable,
which is a matter of their kinds. -/
theorem lawful_compareFlat (a : Value) : Lawful compareFlat a where
  self := by
    rw [compareFlat_eq, FlatKey.compare?_self]
  swap := by
    intro b
    rw [compareFlat_eq, compareFlat_eq, FlatKey.compare?_swap a.flatKey b.flatKey]
    cases a.flatKey.compare? b.flatKey <;> rfl
  chain := by
    intro b c o₁ o₂ hab hbc hne₁ hne₂
    rw [compareFlat_eq, FlatKey.compare?_then (compare?_of_compareFlat hab)
      (compare?_of_compareFlat hbc) hne₁ hne₂]
  refusal := by
    intro b cause h
    rw [compareFlat_eq] at h
    split at h
    · simp at h
    · exact ⟨_, _, (Except.error.inj h).symm⟩

/-! ## Items -/

def items : Value → List Value
  | array (some items) => items
  | _ => []

theorem compareItems_cons (a b : Value) (as bs : List Value) :
    compareItems (a :: as) (b :: bs) = andThen (a.compare b) (compareItems as bs) := by
  rw [compareItems]
  cases a.compare b with
  | ok ordering => cases ordering <;> rfl
  | error cause => rfl

/-- Lists are equal when they are equal item by item. -/
theorem compareItems_eq_ok_eq_iff {as bs : List Value} :
    compareItems as bs = .ok .eq ↔ List.Forall₂ (fun a b => a.compare b = .ok .eq) as bs := by
  induction as generalizing bs with
  | nil => cases bs <;> simp [compareItems]
  | cons a as ih =>
      cases bs with
      | nil => simp [compareItems]
      | cons b bs => rw [compareItems_cons, andThen_eq_ok_eq_iff, ih, List.forall₂_cons]

theorem items_eq_nil {a : Value} (h : ∀ as, a ≠ array (some as)) : a.items = [] := by
  unfold items
  split
  · next as => exact absurd rfl (h as)
  · rfl

theorem compareFlat_array_ne_eq {b : Value} (as : List Value) (h : ∀ bs, b ≠ array (some bs)) :
    compareFlat (array (some as)) b ≠ .ok .eq := by
  rw [compareFlat_eq]
  cases b with
  | array payload =>
      cases payload with
      | none => simp [flatKey, FlatKey.compare?]
      | some bs => exact absurd rfl (h bs)
  | _ => simp [flatKey, FlatKey.compare?]

/-- Values are compared by what they are without their items, and then by their items. -/
theorem compare_eq_andThen (a b : Value) :
    a.compare b = andThen (compareFlat a b) (compareItems a.items b.items) := by
  unfold compare
  split
  · rfl
  · next hboth =>
      cases hflat : compareFlat a b with
      | error cause => rfl
      | ok ordering =>
          cases ordering with
          | lt => rfl
          | gt => rfl
          | eq =>
              have hswap : compareFlat b a = .ok .eq := by
                rw [(lawful_compareFlat a).swap, hflat]
                rfl
              have ha : ∀ as, a ≠ array (some as) := by
                rintro as rfl
                exact compareFlat_array_ne_eq as (fun bs hb => hboth as bs rfl hb) hflat
              have hb : ∀ bs, b ≠ array (some bs) := by
                rintro bs rfl
                exact compareFlat_array_ne_eq bs (fun as ha' => ha as ha') hswap
              rw [items_eq_nil ha, items_eq_nil hb, compareItems]
              rfl

theorem lawful_compareItems_nil : Lawful compareItems [] where
  self := by rw [compareItems]
  swap := by
    intro bs
    cases bs <;> simp only [compareItems] <;> rfl
  chain := by
    intro bs cs o₁ o₂ hab hbc hne₁ hne₂
    cases bs with
    | nil =>
        rw [compareItems] at hab
        cases hab
        exact hbc
    | cons b bs =>
        rw [compareItems] at hab
        cases hab
        cases cs with
        | nil =>
            rw [compareItems] at hbc
            exact absurd (Except.ok.inj hbc).symm hne₂
        | cons c cs =>
            rw [compareItems]
            rfl
  refusal := by
    intro bs cause hcause
    cases bs <;> simp [compareItems] at hcause

theorem lawful_compareItems_cons {a : Value} {as : List Value} (h : Lawful compare a)
    (hrest : Lawful compareItems as) : Lawful compareItems (a :: as) where
  self := by
    rw [compareItems_cons, h.self, hrest.self]
    rfl
  swap := by
    intro bs
    cases bs with
    | nil =>
        simp only [compareItems]
        rfl
    | cons b bs =>
        rw [compareItems_cons, compareItems_cons, h.swap, hrest.swap, reversed_andThen]
  chain := by
    intro bs cs o₁ o₂ hab hbc hne₁ hne₂
    cases bs with
    | nil =>
        rw [compareItems] at hab
        exact absurd (Except.ok.inj hab).symm hne₁
    | cons b bs =>
        cases cs with
        | nil =>
            rw [compareItems] at hbc
            exact absurd (Except.ok.inj hbc).symm hne₂
        | cons c cs =>
            rw [compareItems_cons] at hab hbc ⊢
            exact (h.chain b c).andThen (hrest.chain bs cs) o₁ o₂ hab hbc hne₁ hne₂
  refusal := by
    intro bs cause hcause
    cases bs with
    | nil => simp [compareItems] at hcause
    | cons b bs =>
        rw [compareItems_cons] at hcause
        rcases andThen_eq_error hcause with hcause | hcause
        · exact h.refusal b cause hcause
        · exact hrest.refusal bs cause hcause

theorem lawful_compareItems {as : List Value} (h : ∀ a ∈ as, Lawful compare a) :
    Lawful compareItems as := by
  induction as with
  | nil => exact lawful_compareItems_nil
  | cons a as ih =>
      rw [List.forall_mem_cons] at h
      exact lawful_compareItems_cons h.1 (ih h.2)

/-- Induction over values, with the hypothesis for all items. -/
theorem byItems {P : Value → Prop} (h : ∀ a, (∀ item ∈ a.items, P item) → P a) (a : Value) : P a :=
  h a fun item _ => byItems h item
termination_by sizeOf a
decreasing_by
  rename_i hitem
  unfold items at hitem
  split at hitem
  · have := List.sizeOf_lt_of_mem hitem
    simp only [array.sizeOf_spec, Option.some.sizeOf_spec]
    omega
  · simp at hitem

theorem lawful_compare (a : Value) : Lawful compare a := by
  induction a using byItems with
  | h a ih =>
      have hflat := lawful_compareFlat a
      have hitems := lawful_compareItems ih
      exact {
        self := by rw [compare_eq_andThen, hflat.self, hitems.self]; rfl
        swap := by
          intro b
          rw [compare_eq_andThen, compare_eq_andThen a, hflat.swap, hitems.swap, reversed_andThen]
        chain := by
          intro b c
          rw [compare_eq_andThen a, compare_eq_andThen b, compare_eq_andThen a]
          exact (hflat.chain b c).andThen (hitems.chain b.items c.items)
        refusal := by
          intro b cause hcause
          rw [compare_eq_andThen] at hcause
          rcases andThen_eq_error hcause with hcause | hcause
          · exact hflat.refusal b cause hcause
          · exact hitems.refusal b.items cause hcause }

theorem same_iff {a b : Value} : a.same b = true ↔ a.compare b = .ok .eq := by
  unfold same
  split
  · next h => exact iff_of_true rfl h
  · next h => exact iff_of_false (by simp) h

/-- Equal values are equal in both directions, and values equal to one are equal to each other. -/
theorem equivalence_same : Equivalence fun a b : Value => a.same b = true where
  refl := by
    intro a
    exact same_iff.mpr (lawful_compare a).self
  symm := by
    intro a b hab
    rw [same_iff] at hab ⊢
    rw [(lawful_compare a).swap, hab]
    rfl
  trans := by
    intro a b c hab hbc
    rw [same_iff] at hab hbc ⊢
    exact (lawful_compare a).chain b c .eq .eq hab hbc (by decide) (by decide)

/-- The order of values is lawful on any three of them, of whatever kinds and however deep their
items lie. -/
theorem compare_lawful (a b c : Value) :
    a.compare a = .ok .eq ∧
    (∀ ordering, a.compare b = .ok ordering → b.compare a = .ok ordering.swap) ∧
    (∀ cause, a.compare b = .error cause → ∃ left right, cause = .notComparable left right ∧
      b.compare a = .error (.notComparable right left)) ∧
    (∀ o₁ o₂, a.compare b = .ok o₁ → b.compare c = .ok o₂ → o₁ ≠ .gt → o₂ ≠ .gt →
      ∃ o₃, a.compare c = .ok o₃ ∧ o₃ ≠ .gt ∧ (o₁ = .lt ∨ o₂ = .lt → o₃ = .lt)) ∧
    Equivalence fun a b : Value => a.same b = true := by
  have h := lawful_compare a
  refine ⟨h.self, ?_, ?_, ?_, equivalence_same⟩
  · intro ordering hab
    rw [h.swap, hab]
    rfl
  · intro cause hab
    obtain ⟨left, right, rfl⟩ := h.refusal b cause hab
    refine ⟨left, right, rfl, ?_⟩
    rw [h.swap, hab]
    rfl
  · intro o₁ o₂ hab hbc hne₁ hne₂
    refine ⟨_, h.chain b c o₁ o₂ hab hbc hne₁ hne₂, ?_⟩
    cases o₁ <;> cases o₂ <;> simp at hne₁ hne₂ ⊢

/-- An array whose second items are not reached, with numbers of three kinds. -/
theorem compare_lawful_mixed :
    let a : Value := array (some [integer 1, string none])
    let b : Value := array (some [decimal ⟨15, 1⟩, integer 0])
    let c : Value := array (some [double ⟨0x4000000000000000⟩])
    a.compare b = .ok .lt ∧ b.compare c = .ok .lt ∧ a.compare c = .ok .lt := by
  intro a b c
  have hab : a.compare b = .ok .lt := by rfl
  have hbc : b.compare c = .ok .lt := by rfl
  obtain ⟨-, -, -, hchain, -⟩ := compare_lawful a b c
  obtain ⟨o, hac, -, hlt⟩ := hchain .lt .lt hab hbc (by decide) (by decide)
  exact ⟨hab, hbc, hlt (Or.inl rfl) ▸ hac⟩

end Value

end ExtendedJson
