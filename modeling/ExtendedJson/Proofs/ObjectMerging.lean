import ExtendedJson.Proofs.MemberHistory

/-!
# Objects put together

Members with distinct keys are known by two views: their keys in order, and what is found under each
key. The members of two objects are seen through both at once. The keys of the first keep their
places and the new ones of the second come behind them in its order; what is found under a key is what
the second has there, and what the first has where the second has nothing.

From these two sentences everything else about putting together follows without another look at a
pair. A put on the second of two objects is a put on their sum, so pairs may be collected to an object
first and appended then. Sums may be bracketed in any way, because a key is new to a sum just when it
is new to both of its parts.
-/

namespace ExtendedJson

namespace Members

variable {α : Type} {m n : Members α}

/-! ## The two views -/

theorem lookup_eq_none {key : String} {pairs : List (String × α)}
    (h : key ∉ pairs.map Prod.fst) : pairs.lookup key = none := by
  rw [← Option.not_isSome_iff_eq_none]
  exact fun hsome => h (mem_keys_iff (m := ⟨pairs⟩).mpr hsome)

/-- The two views determine members whose keys are distinct. -/
theorem eq_of_views (hnodup : m.keys.Nodup) (hkeys : m.keys = n.keys)
    (hget : ∀ key, m.get? key = n.get? key) : m = n := by
  obtain ⟨pairs⟩ := m
  obtain ⟨others⟩ := n
  rw [Members.mk.injEq]
  change ∀ key, pairs.lookup key = others.lookup key at hget
  change pairs.map Prod.fst = others.map Prod.fst at hkeys
  change (pairs.map Prod.fst).Nodup at hnodup
  induction pairs generalizing others with
  | nil => exact (List.map_eq_nil_iff.mp hkeys.symm).symm
  | cons pair rest ih =>
      obtain ⟨key, value⟩ := pair
      obtain ⟨⟨_, found⟩, others, rfl, hkey, hrest⟩ := List.map_eq_cons_iff.mp hkeys.symm
      cases hkey
      rw [List.map_cons, List.nodup_cons] at hnodup
      have hvalue : some value = some found := by
        simpa only [lookup_cons_eq_ite, if_pos] using hget key
      -- behind the first pair its key is not found again, and every other key is found alike
      have hbehind (other : String) : rest.lookup other = others.lookup other := by
        by_cases hother : other = key
        · rw [hother, lookup_eq_none hnodup.1, lookup_eq_none (hrest ▸ hnodup.1)]
        · simpa only [lookup_cons_eq_ite, if_neg hother] using hget other
      rw [Option.some.inj hvalue, ih others hbehind hrest.symm hnodup.2]

/-! ## Views of a sum -/

theorem keys_append (m : Members α) (hn : n.keys.Nodup) :
    (m.append n).keys = m.keys ++ n.keys.filter (· ∉ m.keys) := by
  obtain ⟨pairs⟩ := n
  rw [append]
  change (m.extend pairs).keys = m.keys ++ (pairs.map Prod.fst).filter _
  rw [keys] at hn
  induction pairs generalizing m with
  | nil => exact (List.append_nil _).symm
  | cons pair rest ih =>
      obtain ⟨key, value⟩ := pair
      rw [List.map_cons, List.nodup_cons] at hn
      -- the first key is none of the later ones, so these are new to `m` just when they are behind it
      have hlater : (rest.map Prod.fst).filter (· ∉ m.keys ++ [key]) =
          (rest.map Prod.fst).filter (· ∉ m.keys) := by
        refine List.filter_congr fun other hother => ?_
        have hne : other ≠ key := ne_of_mem_of_not_mem hother hn.1
        simp [hne]
      rw [pairs_extend_cons, ih _ hn.2, keys_put, List.map_cons]
      by_cases hkey : key ∈ m.keys
      · rw [if_pos hkey, List.filter_cons_of_neg (by simpa using hkey)]
      · rw [if_neg hkey, List.filter_cons_of_pos (by simpa using hkey), hlater, List.append_assoc,
          List.singleton_append]

theorem get?_append (m : Members α) (hn : n.keys.Nodup) (key : String) :
    (m.append n).get? key = (n.get? key).or (m.get? key) := by
  obtain ⟨pairs⟩ := n
  rw [append]
  change (m.extend pairs).get? key = (pairs.lookup key).or (m.get? key)
  rw [keys] at hn
  induction pairs generalizing m with
  | nil => rfl
  | cons pair rest ih =>
      obtain ⟨first, value⟩ := pair
      rw [List.map_cons, List.nodup_cons] at hn
      rw [pairs_extend_cons, ih _ hn.2, get?_put, lookup_cons_eq_ite]
      by_cases hkey : key = first
      · rw [if_pos hkey, if_pos hkey, hkey, lookup_eq_none hn.1, Option.none_or, Option.some_or]
      · rw [if_neg hkey, if_neg hkey]

theorem nodup_keys_append (hm : m.keys.Nodup) (n : Members α) : (m.append n).keys.Nodup :=
  nodup_keys_extend hm n.pairs

/-! ## Sums -/

/-- A put on the second of two members is a put on their sum. -/
theorem append_put (hm : m.keys.Nodup) (hn : n.keys.Nodup) (key : String) (value : α) :
    m.append (n.put key value) = (m.append n).put key value := by
  have hput : (n.put key value).keys.Nodup := nodup_keys_put hn key value
  refine eq_of_views (nodup_keys_append hm _) ?_ fun other => ?_
  · rw [keys_append m hput, keys_put, keys_put, keys_append m hn]
    by_cases hsecond : key ∈ n.keys
    · have hsum : key ∈ m.keys ++ n.keys.filter (· ∉ m.keys) := by
        by_cases hfirst : key ∈ m.keys <;> simp [hfirst, hsecond]
      rw [if_pos hsecond, if_pos hsum]
    · rw [if_neg hsecond, List.filter_append]
      by_cases hfirst : key ∈ m.keys
      · rw [if_pos (List.mem_append_left _ hfirst), List.filter_cons_of_neg (by simpa using hfirst),
          List.filter_nil, List.append_nil]
      · rw [if_neg (by simp [hfirst, hsecond]), List.filter_cons_of_pos (by simpa using hfirst),
          List.filter_nil, List.append_assoc]
  · rw [get?_append m hput, get?_put, get?_put, get?_append m hn]
    split <;> rfl

/-- Pairs may be collected before they are appended. -/
theorem append_ofPairs (hm : m.keys.Nodup) (pairs : List (String × α)) :
    m.append (ofPairs pairs) = m.extend pairs := by
  induction pairs using List.reverseRecOn with
  | nil => rfl
  | append_singleton pairs pair ih =>
      have hlast (m : Members α) : m.extend (pairs ++ [pair]) = (m.extend pairs).put pair.1 pair.2 :=
        List.foldl_concat ..
      rw [ofPairs, hlast, hlast, ← ofPairs, append_put hm (nodup_keys_ofPairs pairs), ih]

variable {a b c : Members α}

theorem append_assoc (ha : a.keys.Nodup) (hb : b.keys.Nodup) (hc : c.keys.Nodup) :
    (a.append b).append c = a.append (b.append c) := by
  have hbc : (b.append c).keys.Nodup := nodup_keys_append hb c
  refine eq_of_views (nodup_keys_append (nodup_keys_append ha b) c) ?_ fun key => ?_
  · -- a key of `c` is new to the sum of `a` and `b` just when it is new to both
    have hnew : c.keys.filter (· ∉ a.keys ++ b.keys.filter (· ∉ a.keys)) =
        (c.keys.filter (· ∉ b.keys)).filter (· ∉ a.keys) := by
      rw [List.filter_filter]
      refine List.filter_congr fun key _ => ?_
      by_cases hkey : key ∈ a.keys <;> simp [hkey]
    rw [keys_append _ hc, keys_append _ hb, keys_append _ hbc, keys_append _ hc, List.filter_append,
      hnew, List.append_assoc]
  · rw [get?_append _ hc, get?_append _ hb, get?_append _ hbc, get?_append _ hc, Option.or_assoc]

theorem empty_append (ha : a.keys.Nodup) : empty.append a = a := ofPairs_of_nodup ha

theorem append_empty (a : Members α) : a.append empty = a := rfl

theorem append_self (ha : a.keys.Nodup) : a.append a = a := by
  refine eq_of_views (nodup_keys_append ha a) ?_ fun key => ?_
  · have hnone : a.keys.filter (· ∉ a.keys) = [] := by
      rw [List.filter_eq_nil_iff]
      simp
    rw [keys_append a ha, hnone, List.append_nil]
  · rw [get?_append a ha, Option.or_self]

end Members

/-! ## Ways of building and merging objects -/

namespace Object

variable {a b c : Object}

/-- Pairs that are put one by one, that are handed over at once, and that are collected to an object
which is appended, make the same of an object. Appending keeps the places of the keys that are there
and lets the entries of the other object win; it is associative, the empty object does nothing on
either side, and an object appended to itself stays as it is. -/
theorem merging_agrees (a b c : Object) (ha : a.keys.Nodup) (hb : b.keys.Nodup) (hc : c.keys.Nodup)
    (pairs : List (String × Entry)) :
    (a.after (pairs.map fun pair => .put pair.1 pair.2) = a.step (.extend pairs) ∧
        a.step (.append (Members.ofPairs pairs)) = a.step (.extend pairs)) ∧
      ((a.step (.append b)).keys = a.keys ++ b.keys.filter (· ∉ a.keys) ∧
        ∀ key, (a.step (.append b)).get? key = (b.get? key).or (a.get? key)) ∧
      (a.step (.append b)).step (.append c) = a.step (.append (b.step (.append c))) ∧
      Object.step Members.empty (.append a) = a ∧
      a.step (.append Members.empty) = a ∧
      a.step (.append a) = a := by
  have happend (a b : Object) : a.step (.append b) = a.append b := rfl
  have hextend (pairs : List (String × Entry)) : a.step (.extend pairs) = a.extend pairs := rfl
  simp only [happend, hextend]
  refine ⟨⟨?_, Members.append_ofPairs ha pairs⟩,
    ⟨Members.keys_append a hb, Members.get?_append a hb⟩, Members.append_assoc ha hb hc,
    Members.empty_append ha, Members.append_empty a, Members.append_self ha⟩
  have hevents : (pairs.map fun pair => Call.put pair.1 pair.2).flatMap Call.events =
      Members.puts pairs := by
    rw [List.flatMap_map, Members.puts, ← List.flatMap_pure_eq_map]
    rfl
  rw [after_eq_replay, hevents, Members.replay_puts]

/-- Three objects of which any two share a key, and pairs with a key that is there, a new one, and
both once more. -/
theorem merging_agrees_overlapping :
    let a : Object := ⟨[("x", .null), ("y", .boolean true)]⟩
    let b : Object := ⟨[("z", .null), ("x", .boolean false)]⟩
    let c : Object := ⟨[("y", .null), ("z", .boolean true), ("w", .null)]⟩
    let pairs : List (String × Entry) :=
      [("y", .null), ("v", .null), ("y", .boolean false), ("v", .boolean true)]
    (a.keys.Nodup ∧ b.keys.Nodup ∧ c.keys.Nodup) ∧
      (a.step (.append (Members.ofPairs pairs)) = a.step (.extend pairs) ∧
        a.step (.extend pairs) = ⟨[("x", .null), ("y", .boolean false), ("v", .boolean true)]⟩) ∧
      (a.step (.append b)).step (.append c) = a.step (.append (b.step (.append c))) ∧
      (a.step (.append b)).step (.append c) =
        ⟨[("x", .boolean false), ("y", .null), ("z", .boolean true), ("w", .null)]⟩ := by
  intro a b c pairs
  have ha : a.keys.Nodup := by decide
  have hb : b.keys.Nodup := by decide
  have hc : c.keys.Nodup := by decide
  obtain ⟨⟨-, hcollected⟩, -, hassoc, -⟩ := merging_agrees a b c ha hb hc pairs
  exact ⟨⟨ha, hb, hc⟩, ⟨hcollected, rfl⟩, hassoc, rfl⟩

end Object

end ExtendedJson
