import ExtendedJson.Proofs.Rereading
import ExtendedJson.Proofs.TreeShape

/-!
# What readers recognise

A reader takes every object in the shape of a wrapper for the extended entry that it wraps, or gives
up, so that no such object is left in what it returns. The reader of texts and the reader of call
trees come to that alike: both put the members of an object one by one, which leaves each key once,
and look at the object only when everything in it has been read.

A writer refuses nothing but objects of that shape and nesting that is too deep. So what was read
can be written, and no text is read as an entry that equals one which a writer finds ambiguous.
-/

namespace ExtendedJson

open Grammar

/-! ## What is never returned -/

/-- An object with a marker as its only key, and a string or `null` under it. -/
def Object.WrapperShaped (o : Object) : Prop :=
  ∃ marker value, o.pairs = [(marker, value)] ∧ marker ∈ markers.map Prod.fst ∧
    (value = .null ∨ ∃ text, value = .string text)

def Date.Valid (d : Date) : Prop :=
  (Calendar.firstYear ≤ d.year ∧ d.year ≤ Calendar.lastYear) ∧ (1 ≤ d.month ∧ d.month ≤ 12) ∧
    1 ≤ d.day ∧ d.day ≤ Calendar.daysInMonth d.year d.month

/-- A time that a clock shows, where only second 59 goes on into a leap second. -/
def TimeOfDay.Valid (t : TimeOfDay) : Prop :=
  t.hour < 24 ∧ t.minute < 60 ∧ t.second < 60 ∧
    (t.nano < Calendar.nanosPerSecond ∨ t.second = 59 ∧ t.nano < 2 * Calendar.nanosPerSecond)

namespace Entry

/-- What is asked of an entry, its parts aside. -/
def Regular : Entry → Prop
  | .object members => members.keys.Nodup ∧ ¬ Object.WrapperShaped members
  | .date (some d) => d.Valid
  | .time (some t) => t.Valid
  | .timestamp (some t) => t.date.Valid ∧ t.time.Valid
  | _ => True

/-- Every object inside has distinct keys and not the shape of a wrapper, and every date and time
inside exists. -/
def Proper : Entry → Prop := Everywhere Regular

end Entry

theorem ofMarker?_eq_none_iff {key : String} :
    Entry.Kind.ofMarker? key = none ↔ key ∉ markers.map Prod.fst := by
  rw [ofMarker?_eq_lookup, List.lookup_eq_none_iff]
  simp [markers]

theorem Object.wrapper?_eq_none_iff {o : Object} : o.wrapper? = none ↔ ¬ o.WrapperShaped := by
  obtain ⟨pairs⟩ := o
  unfold Object.wrapper? WrapperShaped
  split
  · next key text hpairs =>
      simp only at hpairs
      simp [hpairs, ofMarker?_eq_none_iff]
  · next key hpairs =>
      simp only at hpairs
      simp [hpairs, ofMarker?_eq_none_iff]
  · next hstring hnull =>
      refine iff_of_true rfl ?_
      rintro ⟨marker, value, hpairs, -, rfl | ⟨text, rfl⟩⟩
      · exact hnull _ hpairs
      · exact hstring _ _ hpairs

theorem Date.valid (d : Date) : d.Valid := by
  obtain ⟨hlow, hhigh, -⟩ := Calendar.month_le d.day_mem
  exact ⟨d.year_mem, ⟨hlow, hhigh⟩, d.day_mem⟩

theorem TimeOfDay.valid (t : TimeOfDay) : t.Valid :=
  ⟨t.clock.1, t.clock.2.1, t.clock.2.2, t.nano_lt⟩

namespace Entry

/-! ## Proper entries -/

theorem regular_of_not_object {e : Entry} (h : ∀ members, e ≠ .object members) : e.Regular := by
  cases e with
  | object members => exact absurd rfl (h members)
  | date payload =>
      cases payload with
      | none => exact trivial
      | some d => exact d.valid
  | time payload =>
      cases payload with
      | none => exact trivial
      | some t => exact t.valid
  | timestamp payload =>
      cases payload with
      | none => exact trivial
      | some t => exact ⟨t.date.valid, t.time.valid⟩
  | null | boolean | number | string | array | binary => exact trivial

theorem Proper.of_leaf {e : Entry} (harray : ∀ items, e ≠ .array items)
    (hobject : ∀ members, e ≠ .object members) : e.Proper :=
  (everywhere_leaf_iff harray hobject).mpr (regular_of_not_object hobject)

theorem Proper.of_items {items : List Entry} (h : ∀ item ∈ items, item.Proper) :
    (array items).Proper :=
  everywhere_array_iff.mpr ⟨regular_of_not_object (by simp), h⟩

theorem Proper.of_ofObject {pairs : List (String × Entry)} {e : Entry}
    (h : ∀ pair ∈ pairs, pair.2.Proper) (hread : ofObject (Members.ofPairs pairs) = .ok e) :
    e.Proper := by
  rcases ofObject_cases hread with ⟨hplain, rfl⟩ | hextended
  · exact everywhere_object_iff.mpr
      ⟨⟨Members.nodup_keys_ofPairs pairs, Object.wrapper?_eq_none_iff.mp hplain⟩,
        fun pair hpair => h pair (Members.mem_ofPairs hpair)⟩
  · refine .of_leaf ?_ ?_ <;> rintro _ rfl <;> simp [kind] at hextended

/-- Dates and times exist in any entry, so that only keys and shapes have to be looked at. -/
theorem proper_iff {e : Entry} : e.Proper ↔ e.DistinctKeys ∧ e.Unambiguous := by
  simp only [Proper, DistinctKeys, Unambiguous, Everywhere, ← forall_and]
  refine forall₂_congr fun part _ => ?_
  cases part with
  | object members => exact and_congr_right' Object.wrapper?_eq_none_iff.symm
  | null | boolean | number | string | array | binary | date | time | timestamp =>
      exact iff_of_true (regular_of_not_object (by simp)) ⟨trivial, trivial⟩

theorem Readable.proper {levels : Nat} {e : Entry} (h : e.Readable levels) : e.Proper :=
  proper_iff.mpr ⟨h.keys, h.plain⟩

end Entry

/-! ## The two readers -/

theorem proper_of_parseObject {text : String} {limits : ParserOptions} {members : Object}
    (h : parseObject text limits = .ok members) :
    members.keys.Nodup ∧ ∀ pair ∈ members.pairs, pair.2.Proper := by
  unfold parseObject at h
  split at h
  · next read hread =>
      injection h with h
      subst h
      obtain ⟨-, gap, placed, -, pairs, -, hfits, rfl⟩ := Parser.readObject_eq_ok_iff.mp hread
      cases hlevels : (Parser.ofText text limits).levels with
      | zero =>
          rw [hlevels] at hfits
          exact absurd hfits.1 (by simp [Spelling.depth])
      | succ inner =>
          rw [hlevels] at hfits
          have hvalues := Entry.Readable.of_forall₂_members (forall₂_fitsMember_iff.mpr hfits)
            (Entry.Readable.of_fits _ inner)
          rw [← Members.pairs_ofPairs]
          exact ⟨Members.nodup_keys_ofPairs pairs,
            fun pair hpair => (hvalues pair (Members.mem_ofPairs hpair)).proper⟩
  · cases h

/-- What a call tree is read as is proper, by induction on the tree: a map is looked at only when
all its values have been read. -/
theorem CallTree.proper_of_toEntry {tree : CallTree} :
    ∀ e, tree.toEntry = .ok e → e.Proper := by
  induction tree using byShape with
  | unit | none | boolean | int64 | uint64 | char | text | bytes =>
      intro e h
      injection h with h
      subst h
      exact .of_leaf (by simp [Entry.ofInt]) (by simp [Entry.ofInt])
  | newtype | int128 | uint128 =>
      intro e h
      cases h
  | double value =>
      intro e h
      rw [toEntry, Entry.ofBinary64] at h
      cases hd : Decimal.ofBinary64 value with
      | error error => simp [hd] at h
      | ok d =>
          rw [hd] at h
          injection h with h
          subst h
          exact .of_leaf (by simp) (by simp)
  | some inner ih => exact ih
  | seq length trees ih =>
      intro e h
      rw [toEntry] at h
      split at h
      · cases h
      · next items hitems =>
          injection h with h
          subst h
          exact .of_items (forall_mem_of_forall₂ (toItems_eq_ok_iff.mp hitems) ih)
  | map length pairs ih =>
      intro e h
      rw [toEntry] at h
      split at h
      · cases h
      · next members hmembers =>
          split at h
          · cases h
          · next read hread =>
              injection h with h
              subst h
              exact .of_ofObject (forall_mem_of_forall₂ (toMembers_eq_ok_iff.mp hmembers)
                fun pair hpair member hmember => ih pair hpair member.2 hmember.2) hread

/-! ## What was read can be written -/

/-- Readers return proper entries only: those that a parser or a call tree gives, and in an object
that was asked for as one, the values. A writer with as many levels as the parser writes them, and
finds nothing ambiguous that equals one of them. -/
theorem readers_return_proper :
    (∀ text limits e, parseEntry text limits = .ok e → e.Proper ∧
      ∀ options : WriterOptions, limits.maxDepth ≤ options.maxDepth →
        ∃ written, e.write options = .ok written) ∧
    (∀ text limits items, parseArray text limits = .ok items → (Entry.array items).Proper ∧
      ∀ options : WriterOptions, limits.maxDepth ≤ options.maxDepth →
        ∃ written, (Entry.array items).write options = .ok written) ∧
    (∀ text limits members, parseObject text limits = .ok members →
      members.keys.Nodup ∧ ∀ pair ∈ members.pairs, pair.2.Proper) ∧
    (∀ (tree : CallTree) e, tree.toEntry = .ok e → e.Proper) ∧
    ∀ text limits e twin, parseEntry text limits = .ok e →
      (e.same twin = true ∨ twin.same e = true) →
        ∀ options marker, twin.write options ≠ .error (.ambiguousObject marker) := by
  refine ⟨fun text limits e hread => ?_, fun text limits items hread => ?_,
    fun text limits members hread => proper_of_parseObject hread,
    fun tree e hread => tree.proper_of_toEntry e hread,
    fun text limits e twin hread hsame options marker hwrite => ?_⟩
  · have hreadable := readable_of_parseEntry hread
    exact ⟨hreadable.proper, fun options hdepth => ⟨_, hreadable.write_eq hdepth⟩⟩
  · have hreadable := readable_of_parseEntry (parseEntry_of_parseArray hread)
    exact ⟨hreadable.proper, fun options hdepth => ⟨_, hreadable.write_eq hdepth⟩⟩
  · have hplain : twin.Unambiguous := by
      rcases hsame with hsame | hsame
      · exact (Entry.same_iff_alike.mp hsame).unambiguous_iff.mp (readable_of_parseEntry hread).plain
      · exact (Entry.same_iff_alike.mp hsame).unambiguous_iff.mpr (readable_of_parseEntry hread).plain
    cases hplain.error_write hwrite

/-- A date without payload beside a number, read three ways; a map that has a text under its marker
only at first; and an entry that differs from the one read in the scale of its number. -/
theorem readers_return_proper_nested :
    let items : List Entry := [.date none, .number ⟨15, 1⟩]
    let e : Entry := .object ⟨[("a", .array items)]⟩
    let twin : Entry := .object ⟨[("a", .array [.date none, .number ⟨150, 2⟩])]⟩
    let tree : CallTree := .map none [(.text "%bn%", .text "none"), (.text "%bn%", .some .unit)]
    let arrayText := "[\x7b\"%dt%\":null\x7d,1.5]"
    let objectText := "\x7b\"a\":" ++ arrayText ++ "\x7d"
    (parseEntry objectText = .ok e ∧ e.Proper ∧ ∃ written, e.write = .ok written) ∧
    (parseArray arrayText = .ok items ∧ (Entry.array items).Proper ∧
      ∃ written, (Entry.array items).write = .ok written) ∧
    (parseObject objectText = .ok ⟨[("a", .array items)]⟩ ∧ (Entry.array items).Proper) ∧
    (tree.toEntry = .ok (.binary none) ∧ (Entry.binary none).Proper) ∧
    (twin.same e = true ∧ ∀ marker, twin.write ≠ .error (.ambiguousObject marker)) := by
  intro items e twin tree arrayText objectText
  have hitems : (Entry.array items).Readable 127 := by
    rw [Entry.readable_array_iff]
    simp only [items, List.forall_mem_cons]
    exact ⟨.of_extended (by simp [Entry.kind]), .of_leaf rfl, by simp⟩
  have hreadable : e.Readable 128 :=
    Entry.readable_object_iff.mpr ⟨by simp, rfl, by simpa using hitems⟩
  have hnumbers : (Entry.array items).NumbersSatisfy Decimal.Spellable := by
    rw [Entry.numbersSatisfy_array_iff]
    simp only [items, List.forall_mem_cons, Entry.numbersSatisfy_number_iff]
    exact ⟨(Entry.everywhere_leaf_iff (by simp) (by simp)).mpr trivial, Or.inl (by decide), by simp⟩
  have hspell : e.NumbersSatisfy Decimal.Spellable :=
    Entry.numbersSatisfy_object_iff.mpr (by simpa using hnumbers)
  have hentry : parseEntry objectText = .ok e := by
    change parseEntry (String.ofList (renderPieces {} (e.layout 0))) = _
    exact Entry.parseEntry_layout hreadable hspell
  have harray : parseArray arrayText = .ok items := by
    change parseArray (String.ofList (renderPieces {} ((Entry.array items).layout 0))) = _
    exact Entry.parseArray_layout
      ⟨hitems.keys, hitems.plain, hitems.depth.trans (by decide)⟩ hnumbers
  have hobject : parseObject objectText = .ok ⟨[("a", .array items)]⟩ := by
    change parseObject (String.ofList (renderPieces {} (e.layout 0))) = _
    exact Entry.parseObject_layout hreadable hspell
  have htree : tree.toEntry = .ok (.binary none) := by rfl
  have hsame : twin.same e = true := by decide +kernel
  obtain ⟨ofEntry, ofArray, ofObject, ofTree, ofTwin⟩ := readers_return_proper
  refine ⟨⟨hentry, ?_⟩, ⟨harray, ?_⟩, ⟨hobject, ?_⟩, ⟨htree, ?_⟩, hsame, ?_⟩
  · obtain ⟨hproper, hwrite⟩ := ofEntry _ _ _ hentry
    exact ⟨hproper, hwrite {} (by decide)⟩
  · obtain ⟨hproper, hwrite⟩ := ofArray _ _ _ harray
    exact ⟨hproper, hwrite {} (by decide)⟩
  · exact (ofObject _ _ _ hobject).2 _ List.mem_cons_self
  · exact ofTree _ _ htree
  · exact ofTwin _ _ _ _ hentry (Or.inr hsame) _

end ExtendedJson
