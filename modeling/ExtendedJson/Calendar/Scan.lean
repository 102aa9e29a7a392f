import ExtendedJson.Calendar.Basic
import ExtendedJson.Powers
import ExtendedJson.Text.Blank

/-!
# Reading dates and times

A text is taken apart field by field from the left, and the first field that does not fit is the
fault. Fields may have blanks in front and fewer digits than are written; a year of more than four
digits needs a sign. Each number is held against its range as soon as it is read, and only when the
whole text is used up the parts are put together, which fails for a day that its month does not
have.

A timestamp has a `T` between its halves or any number of blanks. When neither reading succeeds the
fault is that of the second.
-/

namespace ExtendedJson

namespace Calendar

/-- Why a text is no date or time. -/
inductive Fault where
  | tooShort
  | invalid
  | outOfRange
  | trailing
deriving DecidableEq

def Fault.message : Fault → String
  | tooShort => "premature end of input"
  | invalid => "input contains invalid characters"
  | outOfRange => "input is out of range"
  | trailing => "trailing input"

/-- A field read off the front of a text, and the rest of the text. -/
abbrev Step (α : Type) := Except Fault (α × List Char)

/-- The digits that `run` begins with, as a number, and what `text` has behind them. `run` is as
much of `text` as the number may take up. -/
def digits (run text : List Char) : Step (List Char) :=
  match run.takeWhile Char.isDigit with
  | [] => .error (if text.isEmpty then .tooShort else .invalid)
  | found => .ok (found, text.drop found.length)

/-- A number that must lie in a range. -/
def within (low high n : Int) (rest : List Char) : Step Int :=
  if low ≤ n ∧ n ≤ high then .ok (n, rest) else .error .outOfRange

/-- The year: up to four digits, or a sign and any number of digits. -/
def year (text : List Char) : Step Int :=
  let text := text.dropWhile Text.isBlank
  let (sign, run, text) : Int × List Char × List Char :=
    match text with
    | '-' :: rest => (-1, rest, rest)
    | '+' :: rest => (1, rest, rest)
    | _ => (1, text.take 4, text)
  match digits run text with
  | .error fault => .error fault
  | .ok (found, rest) =>
    within (-pow2 31) (pow2 31 - 1) (sign * (Nat.ofDigitChars 10 found 0 : Nat)) rest

/-- A field of up to two digits. -/
def field (low high : Nat) (text : List Char) : Step Nat :=
  let text := text.dropWhile Text.isBlank
  match digits (text.take 2) text with
  | .error fault => .error fault
  | .ok (found, rest) =>
    let n := Nat.ofDigitChars 10 found 0
    if low ≤ n ∧ n ≤ high then .ok (n, rest) else .error .outOfRange

/-- A character that has to stand next. -/
def mark (c : Char) : List Char → Step Unit
  | [] => .error .tooShort
  | first :: rest => if first = c then .ok ((), rest) else .error .invalid

/-- The fraction of a second in nanoseconds, if there is a point. Digits after the ninth are passed
over. -/
def fraction : List Char → Step Nat
  | '.' :: text =>
    match digits (text.take 9) text with
    | .error fault => .error fault
    | .ok (found, rest) =>
      .ok (Nat.ofDigitChars 10 found 0 * pow10 (9 - found.length), rest.dropWhile Char.isDigit)
  | text => .ok (0, text)

/-- Year, month and day, each in its range but not yet together. -/
def dateFields (text : List Char) : Except Fault ((Int × Nat × Nat) × List Char) := do
  let (y, text) ← year text
  let ((), text) ← mark '-' text
  let (m, text) ← field 1 12 text
  let ((), text) ← mark '-' text
  let (d, text) ← field 1 31 text
  return ((y, m, d), text)

/-- Hour, minute, second and nanosecond. Second 60 is the leap second behind second 59. -/
def timeFields (text : List Char) :
    Except Fault ((Nat × Nat × Nat × Nat) × List Char) := do
  let (h, text) ← field 0 23 text
  let ((), text) ← mark ':' text
  let (m, text) ← field 0 59 text
  let ((), text) ← mark ':' text
  let (s, text) ← field 0 60 text
  let (nano, text) ← fraction text
  return (if s = 60 then (h, m, 59, nano + nanosPerSecond) else (h, m, s, nano), text)

/-- The end of the text. -/
def finish (text : List Char) : Except Fault Unit :=
  if text.isEmpty then .ok () else .error .trailing

/-- The day of some fields. -/
def toDate (fields : Int × Nat × Nat) : Except Fault Date :=
  match Date.ofParts? fields.1 fields.2.1 fields.2.2 with
  | some date => .ok date
  | none => .error .outOfRange

/-- The time of some fields. -/
def toTime (fields : Nat × Nat × Nat × Nat) : Except Fault TimeOfDay :=
  match TimeOfDay.ofParts? fields.1 fields.2.1 fields.2.2.1 fields.2.2.2 with
  | some time => .ok time
  | none => .error .outOfRange

/-- A timestamp whose halves are parted by what `joint` reads. -/
def timestampWith (joint : List Char → Step Unit) (text : List Char) : Except Fault Timestamp := do
  let (dateParts, text) ← dateFields text
  let ((), text) ← joint text
  let (timeParts, text) ← timeFields text
  finish text
  let date ← toDate dateParts
  let time ← toTime timeParts
  return ⟨date, time⟩

/-- Any number of blanks. -/
def blanks (text : List Char) : Step Unit := .ok ((), text.dropWhile Text.isBlank)

end Calendar

open Calendar

/-- The day that a text names. -/
def Date.read (text : List Char) : Except Calendar.Fault Date := do
  let (parts, text) ← dateFields text
  finish text
  toDate parts

/-- The time of day that a text names. -/
def TimeOfDay.read (text : List Char) : Except Calendar.Fault TimeOfDay := do
  let (parts, text) ← timeFields text
  finish text
  toTime parts

/-- The day and time that a text names. -/
def Timestamp.read (text : List Char) : Except Calendar.Fault Timestamp :=
  match timestampWith (mark 'T') text with
  | .ok timestamp => .ok timestamp
  | .error _ => timestampWith blanks text

end ExtendedJson
