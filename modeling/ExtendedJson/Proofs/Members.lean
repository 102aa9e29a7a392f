import ExtendedJson.Members

/-!
# What putting pairs one by one comes to

`Members.ofPairs` is a loop of puts. Here it is said without the loop: `merged` gives each key the
place where it stands first and the value that comes with it last. From there on nothing has to look
at a put again: the keys of what was read are distinct, every value is one of those put, and pairs
with distinct keys are kept as they are.

For members that are changed step by step there is the view of each step: what it leaves of the keys,
and what is found under a key behind it.
-/

namespace ExtendedJson.Members

variable {α : Type}

/-- Pairs of which no two share a key: each key in the place where it stands first, with the value
that comes with it last. -/
def merged : List (String × α) → List (String × α)
  | [] => []
  | (key, value) :: pairs =>
    (key, (pairs.reverse.lookup key).getD value) ::
      merged (pairs.filter fun pair => pair.1 ≠ key)
termination_by pairs => pairs.length
decreasing_by
  exact Nat.lt_succ_of_le (by simpa using List.length_filter_le _ pairs.attach)

theorem putPairs_cons_self (key : String) (value old : α) (rest : List (String × α)) :
    putPairs key value ((key, old) :: rest) = (key, value) :: rest := by
  rw [putPairs, if_pos rfl]

theorem putPairs_cons_of_ne {key other : String} (h : other ≠ key) (value old : α)
    (rest : List (String × α)) :
    putPairs key value ((other, old) :: rest) = (other, old) :: putPairs key value rest := by
  rw [putPairs, if_neg h]

theorem putPairs_of_not_mem {key : String} (value : α) {pairs : List (String × α)}
    (h : key ∉ pairs.map Prod.fst) : putPairs key value pairs = pairs ++ [(key, value)] := by
  induction pairs with
  | nil => rfl
  | cons pair rest ih =>
      obtain ⟨other, old⟩ := pair
      simp only [List.map_cons, List.mem_cons, not_or] at h
      rw [putPairs_cons_of_ne (Ne.symm h.1), ih h.2, List.cons_append]

theorem pairs_extend_cons (m : Members α) (pair : String × α) (pairs : List (String × α)) :
    m.extend (pair :: pairs) = (m.put pair.1 pair.2).extend pairs := rfl

/-- Puts behind a first member change its value if they come under its key, and otherwise do what
they would do without it. -/
theorem pairs_extend_head (key : String) (value : α) (tail : List (String × α)) :
    ∀ pairs : List (String × α),
      ((⟨(key, value) :: tail⟩ : Members α).extend pairs).pairs =
        (key, (pairs.reverse.lookup key).getD value) ::
          ((⟨tail⟩ : Members α).extend (pairs.filter fun pair => pair.1 ≠ key)).pairs := by
  intro pairs
  induction pairs generalizing value tail with
  | nil => rfl
  | cons pair pairs ih =>
      obtain ⟨other, new⟩ := pair
      rw [pairs_extend_cons, put, List.reverse_cons, List.lookup_append]
      by_cases h : other = key
      · subst h
        rw [putPairs_cons_self, ih, List.filter_cons_of_neg (by simp)]
        cases List.lookup other pairs.reverse <;> simp
      · have hne : List.lookup key [(other, new)] = none := by
          rw [List.lookup_eq_none_iff]
          simpa using Ne.symm h
        rw [putPairs_cons_of_ne (Ne.symm h), ih, hne, Option.or_none,
          List.filter_cons_of_pos (by simpa using h), pairs_extend_cons, put]

/-- The loop of puts, said without the loop. -/
theorem pairs_ofPairs (pairs : List (String × α)) : (ofPairs pairs).pairs = merged pairs := by
  match pairs with
  | [] => rw [merged]; rfl
  | (key, value) :: rest =>
      rw [ofPairs, pairs_extend_cons, put, merged, ← pairs_ofPairs]
      exact pairs_extend_head key value [] rest
termination_by pairs.length
decreasing_by
  exact Nat.lt_succ_of_le (List.length_filter_le _ _)

theorem mem_putPairs {key : String} {value : α} {pairs : List (String × α)} {pair : String × α}
    (h : pair ∈ putPairs key value pairs) : pair = (key, value) ∨ pair ∈ pairs := by
  induction pairs with
  | nil => exact Or.inl (List.mem_singleton.mp h)
  | cons first rest ih =>
      rw [putPairs] at h
      split at h
      · rcases List.mem_cons.mp h with h | h
        · exact Or.inl h
        · exact Or.inr (List.mem_cons_of_mem _ h)
      · rcases List.mem_cons.mp h with h | h
        · exact Or.inr (h ▸ List.mem_cons_self)
        · rcases ih h with h | h
          · exact Or.inl h
          · exact Or.inr (List.mem_cons_of_mem _ h)

/-- Every member was put. -/
theorem mem_extend {pairs : List (String × α)} {m : Members α} {pair : String × α}
    (h : pair ∈ (m.extend pairs).pairs) : pair ∈ m.pairs ∨ pair ∈ pairs := by
  induction pairs generalizing m with
  | nil => exact Or.inl h
  | cons first rest ih =>
      rw [pairs_extend_cons] at h
      rcases ih h with h | h
      · rcases mem_putPairs h with h | h
        · exact Or.inr (h ▸ List.mem_cons_self)
        · exact Or.inl h
      · exact Or.inr (List.mem_cons_of_mem _ h)

theorem mem_ofPairs {pairs : List (String × α)} {pair : String × α}
    (h : pair ∈ (ofPairs pairs).pairs) : pair ∈ pairs := by
  rcases mem_extend h with h | h
  · exact absurd h List.not_mem_nil
  · exact h

theorem keys_putPairs (key : String) (value : α) (pairs : List (String × α)) :
    (putPairs key value pairs).map Prod.fst =
      if key ∈ pairs.map Prod.fst then pairs.map Prod.fst else pairs.map Prod.fst ++ [key] := by
  induction pairs with
  | nil => rfl
  | cons pair rest ih =>
      obtain ⟨other, old⟩ := pair
      by_cases h : other = key
      · subst h
        rw [putPairs_cons_self, if_pos (by simp)]
        rfl
      · rw [putPairs_cons_of_ne h, List.map_cons, ih]
        split
        · next hmem => rw [if_pos (by simp [hmem])]; rfl
        · next hmem => rw [if_neg (by simpa [hmem] using Ne.symm h)]; rfl

theorem keys_put (m : Members α) (key : String) (value : α) :
    (m.put key value).keys = if key ∈ m.keys then m.keys else m.keys ++ [key] :=
  keys_putPairs key value m.pairs

theorem nodup_keys_put {m : Members α} (h : m.keys.Nodup) (key : String) (value : α) :
    (m.put key value).keys.Nodup := by
  rw [keys_put]
  split
  · exact h
  · next hmem =>
      refine List.nodup_append.mpr ⟨h, List.pairwise_singleton _ _, ?_⟩
      rintro other hother _ hkey rfl
      exact hmem (List.mem_singleton.mp hkey ▸ hother)

theorem nodup_keys_extend {m : Members α} (h : m.keys.Nodup) (pairs : List (String × α)) :
    (m.extend pairs).keys.Nodup := by
  induction pairs generalizing m with
  | nil => exact h
  | cons pair pairs ih => exact ih (nodup_keys_put h pair.1 pair.2)

theorem nodup_keys_ofPairs (pairs : List (String × α)) : (ofPairs pairs).keys.Nodup :=
  nodup_keys_extend (m := empty) List.nodup_nil pairs

theorem pairs_extend_of_nodup {m : Members α} {pairs : List (String × α)}
    (h : (m.pairs ++ pairs).map Prod.fst |>.Nodup) : (m.extend pairs).pairs = m.pairs ++ pairs := by
  induction pairs generalizing m with
  | nil => exact (List.append_nil _).symm
  | cons pair pairs ih =>
      have hput : (m.put pair.1 pair.2).pairs = m.pairs ++ [pair] := by
        refine putPairs_of_not_mem pair.2 fun hmem => ?_
        rw [List.map_append, List.map_cons, List.nodup_append] at h
        exact h.2.2 _ hmem _ List.mem_cons_self rfl
      rw [pairs_extend_cons, ih (by rw [hput]; simpa using h), hput, List.append_assoc]
      rfl

/-- Pairs with distinct keys are members as they stand. -/
theorem ofPairs_of_nodup {pairs : List (String × α)} (h : (pairs.map Prod.fst).Nodup) :
    ofPairs pairs = ⟨pairs⟩ := by
  have hpairs : (ofPairs pairs).pairs = pairs := pairs_extend_of_nodup h
  cases hm : ofPairs pairs
  rw [hm] at hpairs
  rw [← hpairs]

/-! ## What is under a key -/

theorem lookup_cons_eq_ite (key other : String) (value : α) (rest : List (String × α)) :
    ((key, value) :: rest).lookup other = if other = key then some value else rest.lookup other := by
  rw [List.lookup_cons]
  by_cases h : other = key
  · rw [h, beq_self_eq_true, if_pos rfl]
  · rw [beq_eq_false_iff_ne.mpr h, if_neg h]

theorem get?_put (m : Members α) (key other : String) (value : α) :
    (m.put key value).get? other = if other = key then some value else m.get? other := by
  obtain ⟨pairs⟩ := m
  change (putPairs key value pairs).lookup other = if other = key then _ else pairs.lookup other
  induction pairs with
  | nil => exact lookup_cons_eq_ite key other value []
  | cons pair rest ih =>
      obtain ⟨first, old⟩ := pair
      by_cases hfirst : first = key
      · subst hfirst
        rw [putPairs_cons_self, lookup_cons_eq_ite, lookup_cons_eq_ite]
        split <;> rfl
      · rw [putPairs_cons_of_ne hfirst, lookup_cons_eq_ite, lookup_cons_eq_ite, ih]
        by_cases h : other = first
        · rw [if_pos h, if_neg (h ▸ hfirst), if_pos h]
        · rw [if_neg h, if_neg h]

theorem mem_keys_iff {m : Members α} {key : String} : key ∈ m.keys ↔ (m.get? key).isSome = true := by
  rw [get?, List.lookup_isSome_iff, keys, List.mem_map]
  exact exists_congr fun pair => and_congr_right' (by rw [beq_iff_eq, eq_comm])

theorem contains_eq_isSome (m : Members α) (key : String) :
    m.contains key = (m.get? key).isSome := by
  rw [Bool.eq_iff_iff, ← mem_keys_iff, contains, List.any_eq_true, keys, List.mem_map]
  exact exists_congr fun pair => and_congr_right' beq_iff_eq

theorem keys_erase (m : Members α) (key : String) : (m.erase key).keys = m.keys.erase key := by
  rw [keys, keys, erase, List.erase_eq_eraseP', List.eraseP_map]
  rfl

theorem get?_erase {m : Members α} (h : m.keys.Nodup) (key other : String) :
    (m.erase key).get? other = if other = key then none else m.get? other := by
  obtain ⟨pairs⟩ := m
  change (pairs.eraseP fun pair => pair.1 == key).lookup other =
    if other = key then _ else pairs.lookup other
  induction pairs with
  | nil => exact (ite_self _).symm
  | cons pair rest ih =>
      obtain ⟨first, old⟩ := pair
      rw [keys, List.map_cons, List.nodup_cons] at h
      by_cases hfirst : first = key
      · subst hfirst
        rw [List.eraseP_cons_of_pos (by simp), lookup_cons_eq_ite]
        by_cases hother : other = first
        · rw [if_pos hother, hother]
          refine Option.not_isSome_iff_eq_none.mp fun hsome => h.1 ?_
          exact mem_keys_iff (m := ⟨rest⟩) |>.mpr hsome
        · rw [if_neg hother, if_neg hother]
      · rw [List.eraseP_cons_of_neg (by simpa using hfirst), lookup_cons_eq_ite, lookup_cons_eq_ite,
          ih h.2]
        by_cases hother : other = first
        · rw [if_pos hother, if_neg (hother ▸ hfirst), if_pos hother]
        · rw [if_neg hother, if_neg hother]

end ExtendedJson.Members
