import ExtendedJson.Decimal.Literal
import ExtendedJson.Entry.Extended
import ExtendedJson.Options
import ExtendedJson.Reader.Cursor
import ExtendedJson.Text.JsonString

/-!
# Reading entries

`readValue` reads one entry, whatever its kind. It recurses on the number of bracket levels that may
still be opened, which is what the depth limit counts and no device: at level zero the next opening
bracket is the error that the limit asks for. What stands between a pair of brackets is read by one
loop for arrays and objects alike, which takes as a parameter how to read a single part and ends
because each part takes something off the text.

The parts of an object are put into its members in the order of the text, so the value that comes
last under a key wins and the place that came first stays. Only then it is decided whether the
object is the wrapper of an extended entry; a wrapper with a text that names nothing is the fault of
its opening bracket.
-/

namespace ExtendedJson

/-- What ends a list of parts, and the faults of a part that is followed by neither a comma nor the
end, and of a text that ends first. -/
structure Brackets where
  closing : Char
  noSeparator : Fault
  atEnd : Fault

/-- The square brackets of an array. -/
def Brackets.square : Brackets := ⟨']', .noArraySeparator, .endInArray⟩

/-- The braces of an object. -/
def Brackets.curly : Brackets := ⟨'\x7d', .noObjectSeparator, .endInObject⟩

variable {α : Type}

/-- Reads parts with commas between them up to the closing bracket. `soFar` holds the parts that
were read before, last first. -/
def readParts (part : Reader α) (brackets : Brackets) (soFar : List α) (c : Cursor) :
    Except Failure (List α × Cursor) :=
  match part c with
  | .error failure => .error failure
  | .ok taken =>
    let next := taken.after.skipLayout
    match next.rest with
    | [] => .error (.malformed next brackets.atEnd)
    | mark :: _ =>
      if mark = ',' then readParts part brackets (taken.value :: soFar) next.step
      else if mark = brackets.closing then .ok ((taken.value :: soFar).reverse, next.step)
      else .error (.malformed next.step brackets.noSeparator)
termination_by c.rest.length
decreasing_by
  have h₁ := taken.shorter
  have h₂ := Cursor.length_skipLayout_le taken.after
  have h₃ := Cursor.length_step_le taken.after.skipLayout
  omega

/-- Reads what stands in brackets, from the opening bracket to behind the closing one. -/
def readBracketed (part : Reader α) (brackets : Brackets) (c : Cursor) :
    Except Failure (List α × Cursor) :=
  let first := c.step.skipLayout
  if first.rest.head? = some brackets.closing then .ok ([], first.step)
  else
    match readParts part brackets [] first with
    | .error failure => .error failure.inside
    | .ok read => .ok read

theorem length_readParts_lt {part : Reader α} {brackets : Brackets} {soFar parts : List α}
    {c after : Cursor} (h : readParts part brackets soFar c = .ok (parts, after)) :
    after.rest.length < c.rest.length := by
  fun_induction readParts part brackets soFar c with
  | case1 | case2 => simp at h
  | case3 soFar c taken _ next rest _ ih =>
    have h₁ := taken.shorter
    have h₂ := Cursor.length_skipLayout_le taken.after
    have h₃ := Cursor.length_step_le next
    have h₄ := ih h
    simp only [next] at h₃ h₄
    omega
  | case4 soFar c taken _ next rest _ =>
    injection h with h
    injection h with _ h
    subst h
    have h₁ := taken.shorter
    have h₂ := Cursor.length_skipLayout_le taken.after
    have h₃ := Cursor.length_step_le next
    simp only [next] at h₃ ⊢
    omega
  | case5 => simp at h

theorem length_readBracketed_lt {part : Reader α} {brackets : Brackets} {parts : List α}
    {c after : Cursor} (hc : c.rest ≠ []) (h : readBracketed part brackets c = .ok (parts, after)) :
    after.rest.length < c.rest.length := by
  have h₁ := Cursor.length_step_lt hc
  have h₂ := Cursor.length_skipLayout_le c.step
  unfold readBracketed at h
  simp only at h
  split at h
  · injection h with h
    injection h with _ h
    subst h
    have h₃ := Cursor.length_step_le c.step.skipLayout
    omega
  · split at h
    · simp at h
    · next hp =>
      injection h with h
      subst h
      have h₃ := length_readParts_lt hp
      omega

/-- Reads the content of a string, from its opening quote to behind the closing one. -/
def readString (c : Cursor) : Except Failure (List Char × Cursor) :=
  c.step.follow (JsonString.scanBody c.step.rest)

theorem length_readString_le {c after : Cursor} {content : List Char}
    (h : readString c = .ok (content, after)) : after.rest.length ≤ c.step.rest.length :=
  Cursor.length_follow_le h

/-- Reads the key of a member and the colon behind it. -/
def readKey (c : Cursor) : Except Failure (String × Cursor) :=
  let quote := c.skipLayout
  if quote.rest.head? = some '"' then
    match readString quote with
    | .error failure => .error failure
    | .ok (key, after) =>
      let colon := after.skipLayout
      if colon.rest.head? = some ':' then .ok (String.ofList key, colon.step)
      else .error (.malformed colon .noColon)
  else .error (.malformed quote .noKey)

theorem length_readKey_le {c after : Cursor} {key : String}
    (h : readKey c = .ok (key, after)) : after.rest.length ≤ c.rest.length := by
  unfold readKey at h
  simp only at h
  split at h
  · split at h
    · simp at h
    · next between hs =>
      split at h
      · injection h with h
        injection h with _ h
        subst h
        have h₁ := Cursor.length_skipLayout_le c
        have h₂ := Cursor.length_step_le c.skipLayout
        have h₃ := length_readString_le hs
        have h₄ := Cursor.length_skipLayout_le between
        have h₅ := Cursor.length_step_le between.skipLayout
        omega
      · simp at h
  · simp at h

/-- Reads a member: key, colon and entry. -/
def readMember (entry : Reader Entry) : Reader (String × Entry) := fun c =>
  match h : readKey c with
  | .error failure => .error failure
  | .ok (key, colon) =>
    match entry colon with
    | .error failure => .error failure
    | .ok taken =>
      .ok ⟨(key, taken.value), taken.after, Nat.lt_of_lt_of_le taken.shorter (length_readKey_le h)⟩

/-- Reads an array, from its opening bracket on. Without a reader for the items no bracket may be
opened any more. -/
def readArray (options : ParserOptions) (item : Option (Reader Entry)) (c : Cursor) :
    Except Failure (List Entry × Cursor) :=
  match item with
  | none => .error ⟨.depthLimit options.maxDepth, c, 0⟩
  | some entry => readBracketed entry .square c

/-- Reads the members of an object, from its opening brace on. -/
def readObject (options : ParserOptions) (item : Option (Reader Entry)) (c : Cursor) :
    Except Failure (Object × Cursor) :=
  match item with
  | none => .error ⟨.depthLimit options.maxDepth, c, 0⟩
  | some entry =>
    match readBracketed (readMember entry) .curly c with
    | .error failure => .error failure
    | .ok (pairs, after) => .ok (Members.ofPairs pairs, after)

theorem length_readArray_lt {options : ParserOptions} {item : Option (Reader Entry)}
    {c after : Cursor} {items : List Entry} (hc : c.rest ≠ [])
    (h : readArray options item c = .ok (items, after)) :
    after.rest.length < c.rest.length := by
  unfold readArray at h
  split at h
  · simp at h
  · exact length_readBracketed_lt hc h

theorem length_readObject_lt {options : ParserOptions} {item : Option (Reader Entry)}
    {c after : Cursor} {members : Object} (hc : c.rest ≠ [])
    (h : readObject options item c = .ok (members, after)) :
    after.rest.length < c.rest.length := by
  unfold readObject at h
  split at h
  · simp at h
  · split at h
    · simp at h
    · next hb =>
      injection h with h
      injection h with _ h
      subst h
      exact length_readBracketed_lt hc hb

/-- Reads the object that opens here, as the entry it stands for. A wrapper that names nothing is
the fault of the place where it opens. -/
def readObjectEntry (options : ParserOptions) (item : Option (Reader Entry)) (c : Cursor) :
    Except Failure (Entry × Cursor) :=
  match readObject options item c with
  | .error failure => .error failure
  | .ok (members, after) =>
    match Entry.ofObject members with
    | .error error => .error ⟨.malformed c.line c.column (.reported error.message), after, 0⟩
    | .ok entry => .ok (entry, after)

/-- Reads one of the words that stand for an entry. -/
def readWord (word : String) (entry : Entry) (c : Cursor) : Except Failure (Entry × Cursor) :=
  if word.toList.isPrefixOf c.rest then .ok (entry, c.skip word.toList.length)
  else .error (.malformed c (.badWord word))

/-- Reads a number literal. -/
def readNumber (options : ParserOptions) (c : Cursor) : Except Failure (Entry × Cursor) :=
  match c.follow (Literal.scan options.maxExponent c.rest) with
  | .error failure => .error failure
  | .ok (literal, after) => .ok (.number literal.value, after)

/-- Reads the entry that begins here, given how to read those one level further in. -/
def readEntryAt (options : ParserOptions) (item : Option (Reader Entry)) (c : Cursor) :
    Except Failure (Entry × Cursor) :=
  match c.rest with
  | [] => .error (.malformed c .noValueAtEnd)
  | first :: _ =>
    match first with
    | '\x7b' => readObjectEntry options item c
    | '[' =>
      match readArray options item c with
      | .error failure => .error failure
      | .ok (items, after) => .ok (.array items, after)
    | '"' =>
      match readString c with
      | .error failure => .error failure
      | .ok (content, after) => .ok (.string (String.ofList content), after)
    | 't' => readWord "true" (.boolean true) c
    | 'f' => readWord "false" (.boolean false) c
    | 'n' => readWord "null" .null c
    | _ =>
      if first = '-' ∨ first.isDigit then readNumber options c
      else .error (.malformed c .noValue)

theorem length_readWord_lt {word : String} {entry read : Entry} {c after : Cursor}
    (hw : 0 < word.toList.length) (hc : c.rest ≠ [])
    (h : readWord word entry c = .ok (read, after)) : after.rest.length < c.rest.length := by
  unfold readWord at h
  split at h
  · injection h with h
    injection h with _ h
    subst h
    have := List.length_pos_iff.mpr hc
    rw [Cursor.rest_skip, List.length_drop]
    omega
  · simp at h

theorem length_readNumber_lt {options : ParserOptions} {read : Entry} {c after : Cursor}
    (hc : c.rest ≠ []) (h : readNumber options c = .ok (read, after)) :
    after.rest.length < c.rest.length := by
  unfold readNumber Cursor.follow at h
  have := List.length_pos_iff.mpr hc
  cases hs : Literal.scan options.maxExponent c.rest with
  | error failure => simp [hs] at h
  | ok scanned =>
    obtain ⟨literal, used⟩ := scanned
    have := Literal.scan_pos hs
    simp only [hs] at h
    injection h with h
    injection h with _ h
    subst h
    rw [Cursor.rest_skip, List.length_drop]
    omega

theorem length_readObjectEntry_lt {options : ParserOptions} {item : Option (Reader Entry)}
    {read : Entry} {c after : Cursor} (hc : c.rest ≠ [])
    (h : readObjectEntry options item c = .ok (read, after)) :
    after.rest.length < c.rest.length := by
  unfold readObjectEntry at h
  split at h
  · simp at h
  · next ho =>
    split at h
    · simp at h
    · injection h with h
      injection h with _ h
      subst h
      exact length_readObject_lt hc ho

theorem length_readEntryAt_lt {options : ParserOptions} {item : Option (Reader Entry)}
    {read : Entry} {c after : Cursor} (h : readEntryAt options item c = .ok (read, after)) :
    after.rest.length < c.rest.length := by
  unfold readEntryAt at h
  split at h
  · simp at h
  · next hcons =>
    have hc : c.rest ≠ [] := by simp [hcons]
    split at h
    · exact length_readObjectEntry_lt hc h
    · split at h
      · simp at h
      · next ha =>
        injection h with h
        injection h with _ h
        subst h
        exact length_readArray_lt hc ha
    · split at h
      · simp at h
      · next hs =>
        injection h with h
        injection h with _ h
        subst h
        exact Nat.lt_of_le_of_lt (length_readString_le hs) (Cursor.length_step_lt hc)
    · exact length_readWord_lt (by decide) hc h
    · exact length_readWord_lt (by decide) hc h
    · exact length_readWord_lt (by decide) hc h
    · split at h
      · exact length_readNumber_lt hc h
      · simp at h

/-- Reads an entry behind layout, given how to read those one level further in. -/
def readValueWith (options : ParserOptions) (item : Option (Reader Entry)) : Reader Entry :=
  fun before =>
    match h : readEntryAt options item before.skipLayout with
    | .error failure => .error failure
    | .ok (entry, after) =>
      .ok ⟨entry, after,
        Nat.lt_of_lt_of_le (length_readEntryAt_lt h) (Cursor.length_skipLayout_le before)⟩

/-- Reads an entry in which at most `levels` brackets may be open at once. -/
def readValue (options : ParserOptions) : (levels : Nat) → Reader Entry
  | 0 => readValueWith options none
  | levels + 1 => readValueWith options (some (readValue options levels))

/-- The reader of what stands inside the next bracket, if one may be opened. -/
def itemReader? (options : ParserOptions) : (levels : Nat) → Option (Reader Entry)
  | 0 => none
  | levels + 1 => some (readValue options levels)

end ExtendedJson
