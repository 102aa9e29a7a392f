import ExtendedJson.Fault

/-!
# String literals

`quote` writes a string literal and `scanBody` reads one back, from behind the opening quote.
Writing escapes only what has to be escaped: the quote, the backslash and control characters.
Reading also accepts `\/` and any `\u` escape that names a character, alone or, beyond the first
plane, as a pair of surrogates.
-/

namespace ExtendedJson.JsonString

/-- How a character is written inside a literal. -/
def escape (c : Char) : List Char :=
  if c = '"' then ['\\', '"']
  else if c = '\\' then ['\\', '\\']
  else if c = '\n' then ['\\', 'n']
  else if c = '\r' then ['\\', 'r']
  else if c = '\t' then ['\\', 't']
  else if c = '\x08' then ['\\', 'b']
  else if c = '\x0c' then ['\\', 'f']
  else if c < ' ' then
    ['\\', 'u', '0', '0', Nat.digitChar (c.toNat / 16), Nat.digitChar (c.toNat % 16)]
  else [c]

/-- The literal of a string. -/
def quote (content : List Char) : List Char :=
  '"' :: (content.flatMap escape ++ ['"'])

/-- The value of a hexadecimal digit of either case. -/
def hexValue? (c : Char) : Option Nat :=
  if '0' ≤ c ∧ c ≤ '9' then some (c.toNat - '0'.toNat)
  else if 'a' ≤ c ∧ c ≤ 'f' then some (c.toNat - 'a'.toNat + 10)
  else if 'A' ≤ c ∧ c ≤ 'F' then some (c.toNat - 'A'.toNat + 10)
  else none

/-- Reads `count` hexadecimal digits. A character that is none still counts as looked through. -/
def scanHex : (count : Nat) → (value used : Nat) → List Char → Scan Nat
  | 0, value, used, _ => .ok (value, used)
  | _ + 1, _, used, [] => .error (.badHexDigits, used)
  | count + 1, value, used, c :: rest =>
    match hexValue? c with
    | none => .error (.badHexDigits, used + 1)
    | some digit => scanHex count (16 * value + digit) (used + 1) rest

/-- The first half of a surrogate pair. -/
def isHighSurrogate (code : Nat) : Bool := 0xD800 ≤ code && code < 0xDC00

/-- The second half of a surrogate pair. -/
def isLowSurrogate (code : Nat) : Bool := 0xDC00 ≤ code && code < 0xE000

/-- The code point that a surrogate pair stands for. -/
def pairCode (high low : Nat) : Nat := 0x10000 + (high - 0xD800) * 0x400 + (low - 0xDC00)

/-- The character that is named behind a `\u`: by four digits, or by ten characters when they are
a surrogate pair. -/
def scanUnicode (text : List Char) : Scan Char :=
  match scanHex 4 0 0 text with
  | .error failure => .error failure
  | .ok (first, used) =>
    if isHighSurrogate first then
      match text.drop used with
      | '\\' :: 'u' :: rest =>
        match scanHex 4 0 0 rest with
        | .error (fault, more) => .error (fault, used + 2 + more)
        | .ok (second, more) =>
          if isLowSurrogate second then .ok (Char.ofNat (pairCode first second), used + 2 + more)
          else .error (.badLowSurrogate, used + 2 + more)
      | _ => .error (.unpairedSurrogate, used)
    else if isLowSurrogate first then .error (.badCodePoint, used)
    else .ok (Char.ofNat first, used)

/-- The character that is named behind a backslash. -/
def scanEscape : List Char → Scan Char
  | [] => .error (.endInString, 0)
  | c :: rest =>
    match c with
    | '"' => .ok ('"', 1)
    | '\\' => .ok ('\\', 1)
    | '/' => .ok ('/', 1)
    | 'b' => .ok ('\x08', 1)
    | 'f' => .ok ('\x0c', 1)
    | 'n' => .ok ('\n', 1)
    | 'r' => .ok ('\r', 1)
    | 't' => .ok ('\t', 1)
    | 'u' =>
      match scanUnicode rest with
      | .error (fault, used) => .error (fault, used + 1)
      | .ok (named, used) => .ok (named, used + 1)
    | _ => .error (.badEscape, 1)

/-- Reads up to the closing quote. `kept` holds the characters read so far, last first, and `used`
counts those looked through. -/
def scanFrom (kept : List Char) (used : Nat) : List Char → Scan (List Char)
  | [] => .error (.unterminatedString, used)
  | '"' :: _ => .ok (kept.reverse, used + 1)
  | '\\' :: rest =>
    match scanEscape rest with
    | .error (fault, more) => .error (fault, used + 1 + more)
    | .ok (named, more) => scanFrom (named :: kept) (used + 1 + more) (rest.drop more)
  | c :: rest =>
    if c < ' ' then .error (.controlCharacter, used + 1)
    else scanFrom (c :: kept) (used + 1) rest
termination_by text => text.length
decreasing_by
  · rw [List.length_drop, List.length_cons]
    omega
  · exact Nat.lt_succ_self _

/-- The content of a string literal, read from behind its opening quote, and the width of what was
read with the closing quote. -/
def scanBody (text : List Char) : Scan (List Char) := scanFrom [] 0 text

end ExtendedJson.JsonString
