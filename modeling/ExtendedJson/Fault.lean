/-!
# What can be wrong with a text

The causes for which the reader gives up, each with its wording. Where the text went wrong is not
part of the cause: the reader adds the place.
-/

namespace ExtendedJson

/-- Why a text is no document. -/
inductive Fault where
  | noObject
  | noArray
  | noValue
  | noValueAtEnd
  | badWord (word : String)
  | noKey
  | noColon
  | noObjectSeparator
  | endInObject
  | noArraySeparator
  | endInArray
  | trailing
  | unterminatedString
  | endInString
  | controlCharacter
  | badEscape
  | badHexDigits
  | unpairedSurrogate
  | badLowSurrogate
  | badCodePoint
  | noDigit
  | noFractionDigit
  | noExponentDigit
  | exponentOutOfRange
  /-- A complaint that was worded elsewhere, such as that of a date text that names no date. -/
  | reported (message : String)
deriving DecidableEq

namespace Fault

def message : Fault → String
  | noObject => "Expected '\x7b'"
  | noArray => "Expected '['"
  | noValue => "Expected a JSON value"
  | noValueAtEnd => "Unexpected end of input, expected a JSON value"
  | badWord word => "Expected '" ++ word ++ "'"
  | noKey => "Expected string key"
  | noColon => "Expected ':' after key"
  | noObjectSeparator => "Expected ',' or '\x7d'"
  | endInObject => "Unexpected end of input in object"
  | noArraySeparator => "Expected ',' or ']'"
  | endInArray => "Unexpected end of input in array"
  | trailing => "Unexpected trailing characters"
  | unterminatedString => "Unterminated string"
  | endInString => "Unexpected end of input in string"
  | controlCharacter => "Unescaped control character in string"
  | badEscape => "Invalid escape sequence"
  | badHexDigits => "Invalid unicode escape sequence (expected 4 hex digits)"
  | unpairedSurrogate => "Unpaired surrogate in unicode escape"
  | badLowSurrogate => "Invalid low surrogate in unicode escape"
  | badCodePoint => "Invalid unicode code point"
  | noDigit => "Invalid number: expected digit"
  | noFractionDigit => "Invalid number: expected digit after '.'"
  | noExponentDigit => "Invalid number: expected exponent digits"
  | exponentOutOfRange => "Invalid number: exponent out of range"
  | reported message => message

end Fault

/-- What the front of a text says and how many characters say it, or why it says nothing and how
many characters were looked through before that was clear. -/
abbrev Scan (α : Type) := Except (Fault × Nat) (α × Nat)

end ExtendedJson
