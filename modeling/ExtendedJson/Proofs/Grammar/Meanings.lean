import ExtendedJson.Proofs.EntryShape
import ExtendedJson.Proofs.Grammar.Reading

/-!
# What can be read

An entry that a spelling means has been through the rules of the grammar: its objects have distinct
keys, none of them looks like a wrapper, and it takes no more levels than its spelling. So whatever
was read can be written.
-/

namespace ExtendedJson

open Grammar

namespace Entry

variable {limits : ParserOptions} {levels : Nat}

theorem Readable.of_leaf {e : Entry} (h : e.readingDepth = 0) : Readable levels e := by
  cases e with
  | null | boolean | number | string =>
      exact {
        keys := (everywhere_leaf_iff (by simp) (by simp)).mpr trivial
        plain := (everywhere_leaf_iff (by simp) (by simp)).mpr trivial
        depth := Nat.zero_le _ }
  | array items => simp [readingDepth_array] at h
  | object members =>
      obtain ⟨pairs⟩ := members
      simp [readingDepth_object] at h
  | binary | date | time | timestamp => simp [readingDepth, depthWith] at h

theorem Readable.of_extended {e : Entry}
    (h : e.kind = .binary ∨ e.kind = .date ∨ e.kind = .time ∨ e.kind = .timestamp) :
    Readable (levels + 1) e := by
  cases e with
  | null | boolean | number | string | array | object => simp [kind] at h
  | binary | date | time | timestamp =>
      exact {
        keys := (everywhere_leaf_iff (by simp) (by simp)).mpr trivial
        plain := (everywhere_leaf_iff (by simp) (by simp)).mpr trivial
        depth := Nat.le_add_left 1 levels }

theorem kind_of_decodeExtended {kind : Kind} {text : Option String} {e : Entry}
    (h : decodeExtended kind text = .ok e) : e.kind = kind := by
  have htoEntry (payload : Payload) : payload.toEntry.kind = payload.kind := by cases payload <;> rfl
  cases text with
  | none => cases kind <;> simp [decodeExtended, withKind] at h <;> rw [← h] <;> rfl
  | some text =>
      unfold decodeExtended at h
      simp only at h
      split at h
      · simp at h
      · next payload hpayload =>
          have hkind := kind_of_decodePayload hpayload
          rw [withKind, if_pos hkind] at h
          injection h with h
          rw [← h, htoEntry, hkind]

/-- What an object is read as: itself, or an extended entry. -/
theorem ofObject_cases {object : Object} {e : Entry} (h : ofObject object = .ok e) :
    (Object.wrapper? object = none ∧ e = .object object) ∨
      e.kind = .binary ∨ e.kind = .date ∨ e.kind = .time ∨ e.kind = .timestamp := by
  unfold ofObject at h
  split at h
  · next kind text hwrapper =>
      obtain ⟨key, hkey⟩ : ∃ key, Kind.ofMarker? key = some kind := by
        unfold Object.wrapper? at hwrapper
        split at hwrapper
        · next key text _ =>
            obtain ⟨_, hkind, hpair⟩ := Option.map_eq_some_iff.mp hwrapper
            exact ⟨key, by rw [hkind, (Prod.mk.inj hpair).1]⟩
        · next key _ =>
            obtain ⟨_, hkind, hpair⟩ := Option.map_eq_some_iff.mp hwrapper
            exact ⟨key, by rw [hkind, (Prod.mk.inj hpair).1]⟩
        · simp at hwrapper
      rw [ofMarker?_eq_lookup] at hkey
      rw [kind_of_decodeExtended h]
      exact Or.inr (marked_cases hkey)
  · next hwrapper =>
      injection h with h
      exact Or.inl ⟨hwrapper, h.symm⟩

/-- What pairs stand for can be read when their values can. -/
theorem Readable.of_standsFor {pairs : List (String × Entry)} {e : Entry}
    (h : ∀ pair ∈ pairs, Readable levels pair.2)
    (hstands : standsFor? (Members.merged pairs) = some e) : Readable (levels + 1) e := by
  rcases ofObject_cases (ofObject_eq_ok_iff.mpr hstands) with ⟨hplain, rfl⟩ | hextended
  · refine readable_object_iff.mpr ⟨?_, hplain, fun pair hpair => ?_⟩
    · rw [← Members.pairs_ofPairs]
      exact Members.nodup_keys_ofPairs pairs
    · rw [← Members.pairs_ofPairs] at hpair
      exact h pair (Members.mem_ofPairs hpair)
  · exact .of_extended hextended

theorem Readable.of_forall₂_items {placed : List (Placed Spelling)} {items : List Entry}
    (h : List.Forall₂ (fun p => Fits limits levels p.item) placed items)
    (hfits : ∀ s e, Fits limits levels s e → Readable levels e) :
    ∀ item ∈ items, Readable levels item := by
  induction h with
  | nil => simp
  | cons hitem _ ih => exact List.forall_mem_cons.mpr ⟨hfits _ _ hitem, ih⟩

theorem Readable.of_forall₂_members {members : List (Placed Quoted × Placed Spelling)}
    {pairs : List (String × Entry)} (h : List.Forall₂ (FitsMember limits levels) members pairs)
    (hfits : ∀ s e, Fits limits levels s e → Readable levels e) :
    ∀ pair ∈ pairs, Readable levels pair.2 := by
  induction h with
  | nil => simp
  | cons hmember _ ih =>
      obtain ⟨hdepth, hexponents, -, hmeaning⟩ := hmember
      exact List.forall_mem_cons.mpr ⟨hfits _ _ ⟨hdepth, hexponents, hmeaning⟩, ih⟩

theorem Readable.of_fits_step
    (hinside : ∀ inner, levels = inner + 1 → ∀ s e, Fits limits inner s e → Readable inner e)
    {s : Spelling} {e : Entry} (hfits : Fits limits levels s e) : Readable levels e := by
  cases s with
  | null => exact Option.some.inj hfits.2.2 ▸ .of_leaf rfl
  | boolean value => exact Option.some.inj hfits.2.2 ▸ .of_leaf rfl
  | number n => exact Option.some.inj hfits.2.2 ▸ .of_leaf rfl
  | string q => exact Option.some.inj hfits.2.2 ▸ .of_leaf rfl
  | array gap placed =>
      obtain ⟨items, rfl⟩ := hfits.exists_items
      cases levels with
      | zero => exact absurd hfits.1 (by simp [Spelling.depth])
      | succ inner =>
          exact readable_array_iff.mpr
            (.of_forall₂_items (fits_array_iff.mp hfits) (hinside inner rfl))
  | object gap members =>
      obtain ⟨pairs, hpairs, hstands⟩ := fits_object_iff.mp hfits
      cases levels with
      | zero => exact absurd hfits.1 (by simp [Spelling.depth])
      | succ inner =>
          exact .of_standsFor
            (.of_forall₂_members (forall₂_fitsMember_iff.mpr hpairs) (hinside inner rfl)) hstands

/-- What a spelling within the limits means can be read with as many levels. -/
theorem Readable.of_fits (limits : ParserOptions) (levels : Nat) :
    ∀ s e, Fits limits levels s e → Readable levels e := by
  induction levels with
  | zero => exact fun s e => .of_fits_step fun inner h => by simp at h
  | succ levels ih =>
      refine fun s e => .of_fits_step fun inner h => ?_
      rw [← Nat.succ.inj h]
      exact ih

end Entry

end ExtendedJson
