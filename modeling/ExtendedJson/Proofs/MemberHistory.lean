import Mathlib.Data.List.Induction
import ExtendedJson.Proofs.Members
import ExtendedJson.Proofs.DoubleOrder
import ExtendedJson.Entry.Edit

/-!
# Members as a record of their history

Whatever is done to members comes down to values that are put under keys and keys that are taken out,
one after the other. From such a history one can say without looking at any members what is under a
key, the value of the latest put unless the key was taken out after that, and since when the key has
been present. The members that come of the history say the same: they find these values, and they list
the present keys from the one that has been present for longest to the latest.

What one event does to that is the step, and a history is an induction over its events from the last
one back, because an event only knows what was before it. The calls that an object takes are histories
of their own; a double that is not finite is one in which nothing happens.
-/

namespace ExtendedJson

/-! ## Histories -/

namespace Members

/-- What happens to a key: a value is put under it, or it is taken out. -/
inductive Event (α : Type) where
  | put (key : String) (value : α)
  | erase (key : String)

variable {α : Type}

namespace Event

def key : Event α → String
  | put key _ => key
  | erase key => key

def value? : Event α → Option α
  | put _ value => some value
  | erase _ => none

end Event

/-- What a history leaves under a key: the value of its latest event about the key, if that is a
put. -/
def latest? (history : List (Event α)) (key : String) : Option α :=
  (history.reverse.find? fun event => event.key == key).bind Event.value?

/-- A key was absent before the event at a time, and has been present from that event to the end. -/
def PresentSince (history : List (Event α)) (key : String) (time : ℕ) : Prop :=
  time < history.length ∧ latest? (history.take time) key = none ∧
    ∀ later, time < later → later ≤ history.length →
      (latest? (history.take later) key).isSome = true

/-- Keys from the one that has been present for longest to the one that became present last. -/
def OldestFirst (history : List (Event α)) (keys : List String) : Prop :=
  ∃ time : String → ℕ, (∀ key ∈ keys, PresentSince history key (time key)) ∧
    keys.Pairwise fun first second => time first < time second

def apply (m : Members α) : Event α → Members α
  | .put key value => m.put key value
  | .erase key => m.erase key

def replay (m : Members α) (history : List (Event α)) : Members α := history.foldl apply m

variable {history : List (Event α)} {event : Event α} {key : String} {keys : List String} {time : ℕ}
  {m : Members α}

theorem latest?_concat (history : List (Event α)) (event : Event α) (key : String) :
    latest? (history ++ [event]) key =
      if event.key = key then event.value? else latest? history key := by
  rw [latest?, List.reverse_append, List.reverse_singleton, List.singleton_append]
  by_cases h : event.key = key
  · rw [List.find?_cons_of_pos (by simpa using h), if_pos h, Option.bind_some]
  · rw [List.find?_cons_of_neg (by simpa using h), if_neg h, latest?]

theorem PresentSince.concat (h : PresentSince history key time)
    (hpresent : (latest? (history ++ [event]) key).isSome = true) :
    PresentSince (history ++ [event]) key time := by
  obtain ⟨htime, habsent, hsince⟩ := h
  refine ⟨by rw [List.length_append]; omega, ?_, fun later hlater hlength => ?_⟩
  · rwa [List.take_append_of_le_length (by omega)]
  · by_cases hend : later ≤ history.length
    · rw [List.take_append_of_le_length hend]
      exact hsince later hlater hend
    · rwa [List.take_of_length_le (by rw [List.length_append, List.length_singleton]; omega)]

theorem presentSince_last (habsent : latest? history key = none)
    (hpresent : (latest? (history ++ [event]) key).isSome = true) :
    PresentSince (history ++ [event]) key history.length := by
  refine ⟨by rw [List.length_append, List.length_singleton]; omega, ?_, fun later hlater _ => ?_⟩
  · rwa [List.take_left]
  · rwa [List.take_of_length_le (by rw [List.length_append, List.length_singleton]; omega)]

/-- Keys that no event puts in another place stay in their order, also when one is left out. -/
theorem OldestFirst.concat (h : OldestFirst history keys) {kept : List String}
    (hkept : kept.Sublist keys)
    (hpresent : ∀ key ∈ kept, (latest? (history ++ [event]) key).isSome = true) :
    OldestFirst (history ++ [event]) kept := by
  obtain ⟨time, hsince, hordered⟩ := h
  refine ⟨time, fun key hkey => ?_, hordered.sublist hkept⟩
  exact (hsince key (hkept.subset hkey)).concat (hpresent key hkey)

theorem OldestFirst.concat_new (h : OldestFirst history keys) (hkey : key ∉ keys)
    (habsent : latest? history key = none)
    (hpresent : ∀ other ∈ keys ++ [key], (latest? (history ++ [event]) other).isSome = true) :
    OldestFirst (history ++ [event]) (keys ++ [key]) := by
  obtain ⟨time, hsince, hordered⟩ := h
  -- the old keys keep their times, and the new one has the time of the last event
  have hold {other : String} (hother : other ∈ keys) :
      Function.update time key history.length other = time other :=
    Function.update_of_ne (ne_of_mem_of_not_mem hother hkey) _ _
  have hnew : Function.update time key history.length key = history.length :=
    Function.update_self ..
  refine ⟨Function.update time key history.length, fun other hmem => ?_,
    List.pairwise_append.mpr ⟨?_, List.pairwise_singleton _ _, fun first hfirst second hsecond => ?_⟩⟩
  · rcases List.mem_append.mp hmem with hother | hother
    · rw [hold hother]
      exact (hsince other hother).concat (hpresent other hmem)
    · cases List.mem_singleton.mp hother
      rw [hnew]
      exact presentSince_last habsent (hpresent key hmem)
  · refine hordered.imp_of_mem fun hfirst hsecond hlt => ?_
    rwa [hold hfirst, hold hsecond]
  · cases List.mem_singleton.mp hsecond
    rw [hold hfirst, hnew]
    exact (hsince first hfirst).1

/-! ## What members record -/

/-- Members that say of each key what a history says of it, and list the present keys once each, from
the oldest to the latest. -/
structure Records (m : Members α) (history : List (Event α)) : Prop where
  nodup : m.keys.Nodup
  get? : ∀ key, m.get? key = latest? history key
  oldestFirst : OldestFirst history m.keys

theorem records_empty : Records (empty : Members α) [] where
  nodup := List.nodup_nil
  get? _ := rfl
  oldestFirst := ⟨fun _ => 0, fun _ hkey => absurd hkey List.not_mem_nil, List.Pairwise.nil⟩

theorem Records.mem_keys_iff (h : Records m history) :
    key ∈ m.keys ↔ (latest? history key).isSome = true := by
  rw [Members.mem_keys_iff, h.get?]

theorem Records.put (h : Records m history) (key : String) (value : α) :
    Records (m.put key value) (history ++ [.put key value]) := by
  have hget (other : String) :
      (m.put key value).get? other = latest? (history ++ [.put key value]) other := by
    rw [get?_put, latest?_concat, h.get?]
    exact if_congr eq_comm rfl rfl
  have hpresent : ∀ other ∈ (m.put key value).keys,
      (latest? (history ++ [.put key value]) other).isSome = true := by
    intro other hother
    rwa [← hget, ← Members.mem_keys_iff]
  have hkeys := m.keys_put key value
  -- a key that is present keeps its place, and one that is not comes last
  refine ⟨nodup_keys_put h.nodup key value, hget, ?_⟩
  by_cases hkey : key ∈ m.keys
  · rw [if_pos hkey] at hkeys
    rw [hkeys] at hpresent ⊢
    exact h.oldestFirst.concat (List.Sublist.refl _) hpresent
  · rw [if_neg hkey] at hkeys
    rw [hkeys] at hpresent ⊢
    have habsent : latest? history key = none := by
      rw [h.mem_keys_iff] at hkey
      exact Option.not_isSome_iff_eq_none.mp hkey
    exact h.oldestFirst.concat_new hkey habsent hpresent

theorem Records.erase (h : Records m history) (key : String) :
    Records (m.erase key) (history ++ [.erase key]) := by
  have hget (other : String) :
      (m.erase key).get? other = latest? (history ++ [.erase key]) other := by
    rw [get?_erase h.nodup, latest?_concat, h.get?]
    exact if_congr eq_comm rfl rfl
  have hkeys : (m.erase key).keys.Sublist m.keys := by
    rw [keys_erase]
    exact List.erase_sublist
  refine ⟨h.nodup.sublist hkeys, hget, h.oldestFirst.concat hkeys fun other hother => ?_⟩
  rwa [← hget, ← Members.mem_keys_iff]

theorem Records.apply (h : Records m history) (event : Event α) :
    Records (m.apply event) (history ++ [event]) := by
  cases event with
  | put key value => exact h.put key value
  | erase key => exact h.erase key

theorem records_replay (history : List (Event α)) : Records (empty.replay history) history := by
  induction history using List.reverseRecOn with
  | nil => exact records_empty
  | append_singleton history event ih =>
      rw [replay, List.foldl_concat]
      exact ih.apply event

theorem replay_append (m : Members α) (first second : List (Event α)) :
    m.replay (first ++ second) = (m.replay first).replay second := List.foldl_append

def puts (pairs : List (String × α)) : List (Event α) :=
  pairs.map fun pair => .put pair.1 pair.2

theorem replay_puts (m : Members α) (pairs : List (String × α)) :
    m.replay (puts pairs) = m.extend pairs := List.foldl_map

end Members

/-! ## Calls of an object -/

namespace Object

open Members (Event latest? puts)

/-- What an object can be asked to change. -/
inductive Call where
  | put (key : String) (entry : Entry)
  | putNull (key : String)
  | putDouble (key : String) (number : Binary64)
  | remove (key : String)
  | append (others : Object)
  | extend (pairs : List (String × Entry))

def Call.edit : Call → Edit
  | put key entry => .put key entry
  | putNull key => .put key .null
  | putDouble key number => .putDouble key number
  | remove key => .removeKey key
  | append others => .append others
  | extend pairs => .extend pairs

/-- What happens to the members in a call. -/
def Call.events : Call → List (Event Entry)
  | put key entry => [.put key entry]
  | putNull key => [.put key .null]
  | putDouble key number =>
    match number.toDecimal? with
    | some d => [.put key (.number d)]
    | none => []
  | remove key => [.erase key]
  | append others => puts others.pairs
  | extend pairs => puts pairs

/-- The object after a call; after one that fails it is as it was. -/
def step (o : Object) (call : Call) : Object :=
  match (Entry.object o).edit call.edit with
  | .ok (_, .object changed) => changed
  | _ => o

def after (o : Object) (calls : List Call) : Object := calls.foldl step o

/-- The history of an object that was made of some pairs and has taken some calls. -/
def historyOf (start : List (String × Entry)) (calls : List Call) : List (Event Entry) :=
  puts start ++ calls.flatMap Call.events

variable {o : Object} {key : String} {x : Binary64}

theorem edit_putDouble_of_some {d : Decimal} (h : x.toDecimal? = some d) :
    (Entry.object o).edit (.putDouble key x) =
      .ok (o.get? key, .object (o.put key (.number d))) := by
  simp only [Entry.edit, Entry.changeObject, Entry.asObject, Entry.ofBinary64, Decimal.ofBinary64, h]

theorem edit_putDouble_of_none (h : x.toDecimal? = none) :
    (Entry.object o).edit (.putDouble key x) = .error (.nonFinite x) := by
  simp only [Entry.edit, Entry.changeObject, Entry.asObject, Entry.ofBinary64, Decimal.ofBinary64, h]

theorem step_eq_replay (o : Object) (call : Call) : o.step call = o.replay call.events := by
  cases call with
  | put key entry => rfl
  | putNull key => rfl
  | putDouble key x =>
      cases hx : x.toDecimal? with
      | some d => simp only [step, Call.edit, edit_putDouble_of_some hx, Call.events, hx]; rfl
      | none => simp only [step, Call.edit, edit_putDouble_of_none hx, Call.events, hx]; rfl
  | remove key => rfl
  | append others => exact (o.replay_puts others.pairs).symm
  | extend pairs => exact (o.replay_puts pairs).symm

theorem after_eq_replay (o : Object) (calls : List Call) :
    o.after calls = o.replay (calls.flatMap Call.events) := by
  induction calls generalizing o with
  | nil => rfl
  | cons call calls ih =>
      rw [List.flatMap_cons, Members.replay_append, ← step_eq_replay]
      exact ih (o.step call)

theorem records_after (start : List (String × Entry)) (calls : List Call) :
    (after (Members.ofPairs start) calls).Records (historyOf start calls) := by
  rw [after_eq_replay, Members.ofPairs, ← Members.replay_puts, ← Members.replay_append]
  exact Members.records_replay _

/-- An object made of some pairs is after any calls the record of its history. Its keys are distinct
and come from the oldest to the latest. Under each key there is what the latest put left, if the key
was not taken out since then, and what is looked up, replaced or taken out is just that. A double that
is not finite is refused, and nothing happens. -/
theorem keeps_history (start : List (String × Entry)) (calls : List Call) :
    let o := after (Members.ofPairs start) calls
    let history := historyOf start calls
    (o.keys.Nodup ∧ o.length = o.keys.length) ∧
      Members.OldestFirst history o.keys ∧
      (∀ key, o.contains key = (latest? history key).isSome) ∧
      (∀ key entry, latest? history key = some entry → Object.get o key = .ok entry) ∧
      (∀ key, latest? history key = none → Object.get o key = .error (.invalidKey key)) ∧
      (∀ key entry, (Entry.object o).edit (.put key entry) =
        .ok (latest? history key, .object (o.put key entry))) ∧
      (∀ key, (Entry.object o).edit (.removeKey key) =
        .ok (latest? history key, .object (o.erase key))) ∧
      (∀ key x d, x.toDecimal? = some d → (Entry.object o).edit (.putDouble key x) =
        .ok (latest? history key, .object (o.put key (.number d)))) ∧
      ∀ key x, x.isFinite = false →
        (Entry.object o).edit (.putDouble key x) = .error (.nonFinite x) ∧
          o.step (.putDouble key x) = o := by
  intro o history
  have hrecords : o.Records history := records_after start calls
  refine ⟨⟨hrecords.nodup, (List.length_map _).symm⟩, hrecords.oldestFirst, fun key => ?_,
    fun key entry hentry => ?_, fun key habsent => ?_, fun key entry => ?_, fun key => ?_,
    fun key x d hx => ?_, fun key x hx => ?_⟩
  · rw [Members.contains_eq_isSome, hrecords.get?]
  · rw [Object.get, hrecords.get?, hentry]
  · rw [Object.get, hrecords.get?, habsent]
  · rw [← hrecords.get?]
    rfl
  · rw [← hrecords.get?]
    rfl
  · rw [← hrecords.get?]
    exact edit_putDouble_of_some hx
  · have hnone : x.toDecimal? = none := by
      rw [← Option.not_isSome_iff_eq_none, Binary64.isSome_toDecimal?, hx]
      exact Bool.false_ne_true
    refine ⟨edit_putDouble_of_none hnone, ?_⟩
    rw [step_eq_replay, Call.events, hnone]
    rfl

theorem keeps_history_through_calls :
    let start : List (String × Entry) := [("a", .null), ("b", .boolean true)]
    let nan : Binary64 := ⟨0x7FF8000000000000⟩
    let oneAndHalf : Binary64 := ⟨0x3FF8000000000000⟩
    let calls : List Call := [.remove "a", .append ⟨[("b", .boolean false), ("c", .null)]⟩,
      .putNull "a", .putDouble "d" nan]
    let o := after (Members.ofPairs start) calls
    (o.keys = ["b", "c", "a"] ∧ Members.OldestFirst (historyOf start calls) o.keys) ∧
      (Object.get o "b" = .ok (.boolean false) ∧ Object.get o "d" = .error (.invalidKey "d")) ∧
      (oneAndHalf.toDecimal? = some ⟨15, 1⟩ ∧ (Entry.object o).edit (.putDouble "c" oneAndHalf) =
        .ok (some .null, .object (o.put "c" (.number ⟨15, 1⟩)))) ∧
      nan.isFinite = false ∧ o.step (.putDouble "b" nan) = o := by
  intro start nan oneAndHalf calls o
  obtain ⟨-, hordered, -, hfound, hmissing, -, -, hstored, hrefused⟩ := keeps_history start calls
  have hnan : nan.isFinite = false := by decide
  have hdecimal : oneAndHalf.toDecimal? = some ⟨15, 1⟩ := by decide
  exact ⟨⟨by decide, hordered⟩, ⟨hfound "b" (.boolean false) rfl, hmissing "d" rfl⟩,
    ⟨hdecimal, hstored "c" oneAndHalf ⟨15, 1⟩ hdecimal⟩, hnan, (hrefused "b" nan hnan).2⟩

end Object

end ExtendedJson
