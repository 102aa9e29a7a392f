import ExtendedJson.Text.Invisible

/-!
# Quoted text in messages

Messages show text between quotes in a form in which every character can be seen: quotes,
backslashes and the common controls by an escape, whatever else does not show by its code point in
hexadecimal, and all other characters as they are.
-/

namespace ExtendedJson.Text

/-- A character in quoted text; `mark` is the quote that has to be escaped. -/
def quoteChar (mark c : Char) : List Char :=
  if c = '\x00' then ['\\', '0']
  else if c = '\t' then ['\\', 't']
  else if c = '\r' then ['\\', 'r']
  else if c = '\n' then ['\\', 'n']
  else if c = '\\' then ['\\', '\\']
  else if c = mark then ['\\', mark]
  else if isInvisible c then '\\' :: 'u' :: '\x7b' :: (Nat.toDigits 16 c.toNat ++ ['\x7d'])
  else [c]

/-- Text between double quotes. -/
def quoted (s : String) : String :=
  String.ofList ('"' :: (s.toList.flatMap (quoteChar '"') ++ ['"']))

/-- A character between single quotes. -/
def quotedChar (c : Char) : String :=
  String.ofList ('\'' :: (quoteChar '\'' c ++ ['\'']))

end ExtendedJson.Text
