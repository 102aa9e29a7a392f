import ExtendedJson.Proofs.Grammar.Unspelled

/-!
# Compact texts are read in one way

`compactText` says what the compact text of an entry is without a writer, and a writer in the compact
style writes just that, from whatever level on. The text determines the entry as far as a text can:
no two entries share one unless they have the same structure, with numbers of the same plain text.

A reader could show that of most entries, but not of all, because the text of a zero of negative
scale is not read, and not at every depth. So the text is taken apart here directly. Its first
character tells the sort of entry, and what follows an entry is a comma, a closing bracket or
nothing, which is how numbers end. Objects and the wrappers of extended entries look alike; there it
is the members that are found, and what an object with these members is read as is the entry.
-/

namespace ExtendedJson

open Grammar

namespace Entry

/-! ## The text -/

mutual

/-- The text of an entry on one line, without blanks. -/
def compactText : Entry → List Char
  | .null => "null".toList
  | .boolean value => if value then "true".toList else "false".toList
  | .number value => value.plain
  | .string value => JsonString.quote value.toList
  | .array items => '[' :: (listed (compactItems items) ++ [']'])
  | .object ⟨pairs⟩ => '\x7b' :: (listed (compactMembers pairs) ++ ['\x7d'])
  | .binary payload => wrapperText "%bn%" (payload.map Hex.encode)
  | .date payload => wrapperText "%dt%" (payload.map Date.text)
  | .time payload => wrapperText "%tm%" (payload.map TimeOfDay.text)
  | .timestamp payload => wrapperText "%ts%" (payload.map Timestamp.text)

def compactItems : List Entry → List (List Char)
  | [] => []
  | item :: items => item.compactText :: compactItems items

def compactMembers : List (String × Entry) → List (List Char)
  | [] => []
  | (key, value) :: pairs =>
    (JsonString.quote key.toList ++ ':' :: value.compactText) :: compactMembers pairs

end

def compactMember (pair : String × Entry) : List Char :=
  JsonString.quote pair.1.toList ++ ':' :: pair.2.compactText

theorem compactText_array (items : List Entry) :
    (array items).compactText = '[' :: (listed (items.map compactText) ++ [']']) := by
  have hitems : compactItems items = items.map compactText := by
    induction items with
    | nil => rfl
    | cons item items ih => rw [compactItems, ih, List.map_cons]
  rw [compactText, hitems]

theorem compactText_object (pairs : List (String × Entry)) :
    (object ⟨pairs⟩).compactText = '\x7b' :: (listed (pairs.map compactMember) ++ ['\x7d']) := by
  have hpairs : compactMembers pairs = pairs.map compactMember := by
    induction pairs with
    | nil => rfl
    | cons pair pairs ih => rw [compactMembers, ih]; rfl
  rw [compactText, hpairs]

/-- What is written in the compact style, at whatever level. -/
theorem renderPieces_layout {options : WriterOptions} (h : options.style = .compact) (e : Entry) :
    ∀ level, renderPieces options (e.layout level) = e.compactText := by
  have hgap (level : Nat) : (lineGap options level).text = [] := by
    simp [lineGap, Piece.render, h]
  induction e using byShape with
  | array items ih =>
      intro level
      by_cases hitems : items = []
      · subst hitems
        rfl
      · rw [layout_array hitems, renderPieces_bracketed options (by simpa using hitems), hgap,
          List.append_nil, List.map_map, compactText_array]
        congr 3
        refine List.map_congr_left fun item hitem => ?_
        have hrow : renderPieces options (itemRow (level + 1) item) =
            (lineGap options (level + 1)).text ++
              renderPieces options (item.layout (level + 1)) := rfl
        rw [Function.comp_apply, hrow, hgap, List.nil_append, ih item hitem]
  | object pairs ih =>
      intro level
      by_cases hpairs : pairs = []
      · subst hpairs
        rfl
      · rw [layout_object hpairs, renderPieces_bracketed options (by simpa using hpairs), hgap,
          List.append_nil, List.map_map, compactText_object]
        congr 3
        refine List.map_congr_left fun pair hpair => ?_
        rw [Function.comp_apply, renderPieces_memberRow, hgap, List.nil_append, ih pair hpair]
        rfl
  | null | boolean | number | string | binary | date | time | timestamp =>
      exact fun level => List.append_nil _

end Entry

/-! ## Numbers and strings -/

namespace Decimal

/-- Whether two numbers have the same plain text. -/
def SameText (d e : Decimal) : Prop := d.plain = e.plain

theorem SameText.refl (d : Decimal) : SameText d d := rfl

theorem mem_plain {d : Decimal} {c : Char} (h : c ∈ d.plain) : c = '-' ∨ c = '.' ∨ c.isDigit := by
  have hzeros {count : Nat} (h : c ∈ List.replicate count '0') : c.isDigit := by
    rw [List.eq_of_mem_replicate h]
    rfl
  have hdigits (h : c ∈ d.digitText) : c.isDigit := d.isDigit_digitText c h
  rw [plain, List.mem_append] at h
  rcases h with h | h
  · unfold signText at h
    split at h
    · exact Or.inl (List.mem_singleton.mp h)
    · simp at h
  · split at h
    · rcases List.mem_append.mp h with h | h
      · exact Or.inr (Or.inr (hdigits h))
      · exact Or.inr (Or.inr (hzeros h))
    · unfold pointed at h
      split at h
      · simp only [List.mem_append, List.mem_cons] at h
        rcases h with h | h | h
        · exact Or.inr (Or.inr (hdigits (List.mem_of_mem_take h)))
        · exact Or.inr (Or.inl h)
        · exact Or.inr (Or.inr (hdigits (List.mem_of_mem_drop h)))
      · simp only [List.mem_append, List.mem_cons] at h
        rcases h with h | h | h | h
        · exact Or.inr (Or.inr (h ▸ rfl))
        · exact Or.inr (Or.inl h)
        · exact Or.inr (Or.inr (hzeros h))
        · exact Or.inr (Or.inr (hdigits h))

/-- The characters of plain texts. -/
def isNumeric (c : Char) : Bool := c = '-' ∨ c = '.' ∨ c.isDigit

/-- A text of such characters ends where they do. -/
theorem numeric_split {s t : List Char} (hs : ∀ c ∈ s, c = '-' ∨ c = '.' ∨ c.isDigit)
    (ht : ∀ c ∈ t, c = '-' ∨ c = '.' ∨ c.isDigit) {x y : List Char} (hx : Stops x) (hy : Stops y)
    (h : s ++ x = t ++ y) : s = t ∧ x = y := by
  have htake {s : List Char} (hs : ∀ c ∈ s, c = '-' ∨ c = '.' ∨ c.isDigit) {x : List Char}
      (hx : Stops x) : (s ++ x).takeWhile isNumeric = s := by
    have hnumeric : ∀ c ∈ s, isNumeric c = true := fun c hc => decide_eq_true (hs c hc)
    rw [List.takeWhile_append_of_pos hnumeric]
    cases x with
    | nil => exact List.append_nil _
    | cons c x =>
        have hc : ¬ isNumeric c = true := by
          rcases hx c rfl with rfl | rfl | rfl <;> decide
        rw [List.takeWhile_cons_of_neg hc, List.append_nil]
  have heq : s = t := by
    rw [← htake hs hx, h, htake ht hy]
  rw [heq] at h
  exact ⟨heq, List.append_cancel_left h⟩

theorem plain_split {d e : Decimal} {x y : List Char} (hx : Stops x) (hy : Stops y)
    (h : d.plain ++ x = e.plain ++ y) : SameText d e ∧ x = y :=
  numeric_split (fun _ => mem_plain) (fun _ => mem_plain) hx hy h

end Decimal

/-- A string literal ends with its closing quote. -/
theorem quote_split {s t x y : List Char}
    (h : JsonString.quote s ++ x = JsonString.quote t ++ y) : s = t ∧ x = y := by
  -- the scanner of literals finds the content in both
  have hscan (s x : List Char) :
      ∃ width, JsonString.scanBody ((JsonString.quote s ++ x).tail) = .ok (s, width) := by
    obtain ⟨q, htext, hcontent⟩ := exists_quoted s
    refine ⟨q.body.length + 1, ?_⟩
    rw [← htext, Quoted.text, List.cons_append, List.tail_cons, List.append_assoc,
      List.singleton_append, JsonString.scanBody_body, hcontent]
  obtain ⟨width, hs⟩ := hscan s x
  obtain ⟨width', ht⟩ := hscan t y
  rw [h, ht] at hs
  injection hs with hs
  injection hs with hcontent
  subst hcontent
  exact ⟨rfl, List.append_cancel_left h⟩

namespace Entry

/-! ## What an entry begins with -/

/-- The character that tells the sort of an entry. All numbers begin alike, and so do objects and
wrappers. -/
def opening : Entry → Char
  | .null => 'n'
  | .boolean value => if value then 't' else 'f'
  | .number _ => '0'
  | .string _ => '"'
  | .array _ => '['
  | _ => '\x7b'

/-- The sort of entry that begins with a character. -/
def sortOf (first : Char) : Char := if first = '-' ∨ first.isDigit then '0' else first

theorem exists_cons_compactText (e : Entry) :
    ∃ first tail, e.compactText = first :: tail ∧ sortOf first = e.opening := by
  cases e with
  | number d =>
      obtain ⟨first, tail, htext, hfirst⟩ := exists_cons_plain d
      exact ⟨first, tail, htext, if_pos hfirst⟩
  | boolean value => cases value <;> exact ⟨_, _, rfl, rfl⟩
  | null | string | array | object | binary | date | time | timestamp => exact ⟨_, _, rfl, rfl⟩

theorem opening_eq {a b : Entry} {x y : List Char}
    (h : a.compactText ++ x = b.compactText ++ y) : a.opening = b.opening := by
  obtain ⟨first, tail, ha, hfirst⟩ := exists_cons_compactText a
  obtain ⟨second, tail', hb, hsecond⟩ := exists_cons_compactText b
  rw [ha, hb, List.cons_append, List.cons_append] at h
  rw [← hfirst, ← hsecond, (List.cons.inj h).1]

/-! ## Entries without entries inside -/

/-- Of an entry and what follows it in a text, the entry is found again, as far as a text shows it,
and so is what follows. -/
def ReadOnce (a : Entry) : Prop :=
  ∀ {b : Entry} {x y : List Char}, b.Unambiguous → Stops x → Stops y →
    a.compactText ++ x = b.compactText ++ y → Alike Decimal.SameText a b ∧ x = y

theorem readOnce_null : ReadOnce .null := by
  intro b x y _ _ _ h
  have hopening := opening_eq h
  cases b with
  | null => exact ⟨.null, List.append_cancel_left h⟩
  | boolean value => cases value <;> simp [opening] at hopening
  | _ => simp [opening] at hopening

theorem readOnce_boolean (value : Bool) : ReadOnce (.boolean value) := by
  intro b x y _ _ _ h
  have hopening := opening_eq h
  cases b with
  | boolean other =>
      obtain rfl : value = other := by
        cases value <;> cases other <;> simp [opening] at hopening ⊢
      exact ⟨.boolean value, List.append_cancel_left h⟩
  | _ => cases value <;> simp [opening] at hopening

theorem readOnce_number (d : Decimal) : ReadOnce (.number d) := by
  intro b x y _ hx hy h
  have hopening := opening_eq h
  cases b with
  | number e =>
      obtain ⟨hplain, hrest⟩ := Decimal.plain_split hx hy h
      exact ⟨.number hplain, hrest⟩
  | boolean value => cases value <;> simp [opening] at hopening
  | _ => simp [opening] at hopening

theorem readOnce_string (value : String) : ReadOnce (.string value) := by
  intro b x y _ _ _ h
  have hopening := opening_eq h
  cases b with
  | string other =>
      obtain ⟨hcontent, hrest⟩ := quote_split h
      obtain rfl : value = other := String.toList_inj.mp hcontent
      exact ⟨.string value, hrest⟩
  | boolean value => cases value <;> simp [opening] at hopening
  | _ => simp [opening] at hopening

end Entry

/-! ## Rows -/

/-- What follows a row: the closing bracket, or a comma and the other rows. -/
def behindRow (closing : Char) (rest : List Char) : List (List Char) → List Char
  | [] => closing :: rest
  | rows => ',' :: (listed rows ++ closing :: rest)

theorem listed_eq_behindRow (closing : Char) (rest row : List Char) (rows : List (List Char)) :
    listed (row :: rows) ++ closing :: rest = row ++ behindRow closing rest rows := by
  cases rows with
  | nil => rfl
  | cons second rows => rw [listed_cons row (by simp), List.append_assoc]; rfl

theorem stops_behindRow {closing : Char} (h : closing = ']' ∨ closing = '\x7d')
    (rest : List Char) (rows : List (List Char)) : Stops (behindRow closing rest rows) := by
  cases rows with
  | nil => exact stops_cons (Or.inr h) rest
  | cons row rows => exact stops_cons (Or.inl rfl) _

/-- When rows are found again one by one, so is a list of them up to its closing bracket, with which
no row begins. -/
theorem listed_split {α : Type} {R : α → α → Prop} {row : α → List Char} {closing : Char}
    (hclosing : closing = ']' ∨ closing = '\x7d')
    (hopens : ∀ a, ∃ first tail, row a = first :: tail ∧ first ≠ closing) {as bs : List α}
    (hrows : ∀ a ∈ as, ∀ b ∈ bs, ∀ {x y : List Char}, Stops x → Stops y →
      row a ++ x = row b ++ y → R a b ∧ x = y) {x y : List Char}
    (h : listed (as.map row) ++ closing :: x = listed (bs.map row) ++ closing :: y) :
    List.Forall₂ R as bs ∧ x = y := by
  have hclash {a : α} {rows : List (List Char)} {x y : List Char}
      (h : closing :: x = listed (row a :: rows) ++ closing :: y) : False := by
    obtain ⟨first, tail, hfirst, hne⟩ := hopens a
    rw [listed_eq_behindRow, hfirst, List.cons_append] at h
    exact hne (List.cons.inj h).1.symm
  have hcomma : closing ≠ ',' := by
    rcases hclosing with rfl | rfl <;> decide
  induction as generalizing bs with
  | nil =>
      cases bs with
      | nil => exact ⟨.nil, (List.cons.inj h).2⟩
      | cons b bs => exact (hclash h).elim
  | cons a as ih =>
      cases bs with
      | nil => exact (hclash h.symm).elim
      | cons b bs =>
          rw [List.map_cons, List.map_cons, listed_eq_behindRow, listed_eq_behindRow] at h
          obtain ⟨hrow, hbehind⟩ := hrows a List.mem_cons_self b List.mem_cons_self
            (stops_behindRow hclosing x _) (stops_behindRow hclosing y _) h
          cases as with
          | nil =>
              cases bs with
              | nil => exact ⟨.cons hrow .nil, (List.cons.inj hbehind).2⟩
              | cons b' bs => exact absurd (List.cons.inj hbehind).1 hcomma
          | cons a' as =>
              cases bs with
              | nil => exact absurd (List.cons.inj hbehind).1.symm hcomma
              | cons b' bs =>
                  obtain ⟨hrest, hxy⟩ := ih (fun a ha b hb => hrows a (List.mem_cons_of_mem _ ha) b
                    (List.mem_cons_of_mem _ hb)) (List.cons.inj hbehind).2
                  exact ⟨.cons hrow hrest, hxy⟩

namespace Entry

/-! ## Arrays and objects -/

theorem readOnce_array {items : List Entry} (h : ∀ item ∈ items, ReadOnce item) :
    ReadOnce (.array items) := by
  intro b x y hb hx hy htext
  have hopening := opening_eq htext
  cases b with
  | array others =>
      rw [compactText_array, compactText_array, List.cons_append, List.cons_append,
        List.append_assoc, List.append_assoc] at htext
      have hopens (e : Entry) : ∃ first tail, e.compactText = first :: tail ∧ first ≠ ']' := by
        obtain ⟨first, tail, htext, hsort⟩ := exists_cons_compactText e
        refine ⟨first, tail, htext, ?_⟩
        rintro rfl
        cases e with
        | boolean value => cases value <;> exact absurd hsort (by decide)
        | _ => exact absurd hsort (by simp [opening, sortOf])
      obtain ⟨hitems, hrest⟩ := listed_split (Or.inl rfl) hopens
        (fun item hitem other hother {_ _} => h item hitem (unambiguous_array_iff.mp hb other hother))
        (List.cons.inj htext).2
      exact ⟨.array hitems, hrest⟩
  | boolean value => cases value <;> simp [opening] at hopening
  | _ => simp [opening] at hopening

/-- The text of an entry is that of members in braces, and an object with these members is read as
the entry. -/
structure Braced (e : Entry) (pairs : List (String × Entry)) : Prop where
  text : e.compactText = '\x7b' :: (listed (pairs.map compactMember) ++ ['\x7d'])
  read : ofObject ⟨pairs⟩ = .ok e

theorem braced_object {pairs : List (String × Entry)} (h : (object ⟨pairs⟩).Unambiguous) :
    Braced (.object ⟨pairs⟩) pairs where
  text := compactText_object pairs
  read := by
    rw [ofObject, (unambiguous_object_iff.mp h).1]

theorem braced_wrapper {e : Entry} {text : Option (List Char)} {marker : String}
    (h : e.extendedText? = some text) (hmarker : Kind.ofMarker? marker = some e.kind)
    (htext : e.compactText = wrapperText marker text) : Braced e [(marker, underMarker text)] where
  text := by
    rw [htext]
    cases text <;> simp [wrapperText, listed, compactMember, underMarker, compactText]
  read := ofObject_underMarker h hmarker

theorem unambiguous_underMarker (text : Option (List Char)) : (underMarker text).Unambiguous := by
  cases text <;>
    exact (everywhere_leaf_iff (by simp [underMarker]) (by simp [underMarker])).mpr trivial

theorem readOnce_underMarker (text : Option (List Char)) : ReadOnce (underMarker text) := by
  cases text with
  | none => exact readOnce_null
  | some text => exact readOnce_string _

theorem exists_braced {e : Entry} (h : e.Unambiguous) (hopening : e.opening = '\x7b') :
    ∃ pairs, Braced e pairs ∧ ∀ pair ∈ pairs, pair.2.Unambiguous := by
  have hwrapper {e : Entry} {text : Option (List Char)} {marker : String}
      (h : Braced e [(marker, underMarker text)]) :
      ∃ pairs, Braced e pairs ∧ ∀ pair ∈ pairs, pair.2.Unambiguous :=
    ⟨_, h, List.forall_mem_singleton.mpr (unambiguous_underMarker text)⟩
  cases e with
  | object members => exact ⟨members.pairs, braced_object h, (unambiguous_object_iff.mp h).2⟩
  | binary => exact hwrapper (braced_wrapper rfl rfl rfl)
  | date => exact hwrapper (braced_wrapper rfl rfl rfl)
  | time => exact hwrapper (braced_wrapper rfl rfl rfl)
  | timestamp => exact hwrapper (braced_wrapper rfl rfl rfl)
  | boolean value => cases value <;> simp [opening] at hopening
  | null | number | string | array => simp [opening] at hopening

/-- What objects of one structure are read as has one structure. -/
theorem alike_of_ofObject {R : Decimal → Decimal → Prop} (hrefl : ∀ d, R d d) {a b : Entry}
    {as bs : List (String × Entry)}
    (h : List.Forall₂ (fun a b => a.1 = b.1 ∧ Alike R a.2 b.2) as bs)
    (ha : ofObject ⟨as⟩ = .ok a) (hb : ofObject ⟨bs⟩ = .ok b) : Alike R a b := by
  rw [ofObject, wrapper?_of_alike h] at ha
  rw [ofObject] at hb
  cases hwrapper : Object.wrapper? ⟨bs⟩ with
  | some wrapper =>
      rw [hwrapper] at ha hb
      rw [ha] at hb
      cases hb
      exact .refl hrefl a
  | none =>
      rw [hwrapper] at ha hb
      cases ha
      cases hb
      exact alike_object_iff.mpr h

theorem readOnce_braced {a : Entry} {pairs : List (String × Entry)} (ha : Braced a pairs)
    (hopening : a.opening = '\x7b') (h : ∀ pair ∈ pairs, ReadOnce pair.2) : ReadOnce a := by
  intro b x y hb hx hy htext
  obtain ⟨others, hbraced, hothers⟩ := exists_braced hb (opening_eq htext ▸ hopening)
  have hmembers : ∀ pair ∈ pairs, ∀ other ∈ others, ∀ {x y : List Char}, Stops x → Stops y →
      compactMember pair ++ x = compactMember other ++ y →
        (pair.1 = other.1 ∧ Alike Decimal.SameText pair.2 other.2) ∧ x = y := by
    intro pair hpair other hother x y hx hy hmember
    unfold compactMember at hmember
    rw [List.append_assoc, List.append_assoc] at hmember
    obtain ⟨hkey, hvalue⟩ := quote_split hmember
    obtain ⟨halike, hrest⟩ := h pair hpair (hothers other hother) hx hy (List.cons.inj hvalue).2
    exact ⟨⟨String.toList_inj.mp hkey, halike⟩, hrest⟩
  rw [ha.text, hbraced.text, List.cons_append, List.cons_append, List.append_assoc,
    List.append_assoc] at htext
  obtain ⟨hpairs, hrest⟩ := listed_split (Or.inr rfl) (fun pair => ⟨'"', _, rfl, by decide⟩) hmembers
    (List.cons.inj htext).2
  exact ⟨alike_of_ofObject Decimal.SameText.refl hpairs ha.read hbraced.read, hrest⟩

/-- Every entry without objects in disguise is found again. -/
theorem readOnce {e : Entry} : e.Unambiguous → ReadOnce e := by
  induction e using byShape with
  | null => exact fun _ => readOnce_null
  | boolean value => exact fun _ => readOnce_boolean value
  | number value => exact fun _ => readOnce_number value
  | string value => exact fun _ => readOnce_string value
  | array items ih =>
      exact fun h => readOnce_array fun item hitem =>
        ih item hitem (unambiguous_array_iff.mp h item hitem)
  | object pairs ih =>
      exact fun h => readOnce_braced (braced_object h) rfl fun pair hpair =>
        ih pair hpair ((unambiguous_object_iff.mp h).2 pair hpair)
  | binary | date | time | timestamp =>
      exact fun _ => readOnce_braced (braced_wrapper rfl rfl rfl) rfl
        (List.forall_mem_singleton.mpr (readOnce_underMarker _))

theorem compactText_of_alike {a : Entry} :
    ∀ {b : Entry}, Alike Decimal.SameText a b → a.compactText = b.compactText := by
  induction a using byShape with
  | number d =>
      intro b h
      cases h with
      | number htext => exact htext
  | array items ih =>
      intro b h
      cases h with
      | array hitems =>
          rw [compactText_array, compactText_array, map_eq_map_of_forall₂ ih hitems]
  | object pairs ih =>
      intro b h
      cases h with
      | @object _ others hkeys hvalues =>
          have hmembers : pairs.map compactMember = others.map compactMember :=
            map_eq_map_of_forall₂
              (fun pair hpair other h => by rw [compactMember, h.1, ih pair hpair h.2]; rfl)
              (forall₂_members_iff.mpr ⟨hkeys, hvalues⟩)
          rw [compactText_object, compactText_object, hmembers]
  | null | boolean | string | binary | date | time | timestamp =>
      intro b h
      cases h
      rfl

/-- Two entries without objects in disguise have one text just when they have one structure, with
numbers of one text. -/
theorem compactText_eq_iff {a b : Entry} (ha : a.Unambiguous) (hb : b.Unambiguous) :
    a.compactText = b.compactText ↔ Alike Decimal.SameText a b :=
  ⟨fun h => (readOnce ha hb stops_nil stops_nil (congrArg (· ++ []) h)).1, compactText_of_alike⟩

end Entry

end ExtendedJson
