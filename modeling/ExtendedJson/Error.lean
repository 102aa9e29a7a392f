import ExtendedJson.Fault
import ExtendedJson.Binary64.Shortest
import ExtendedJson.Text.Quoted

/-!
# Errors

Every operation that can fail fails with one of these causes. Kinds are given by name, because
causes about entries and causes about values are worded alike.
-/

namespace ExtendedJson

/-- Why an operation failed. -/
inductive Error where
  /-- A payload was needed and absent. -/
  | nullArgument (what : String)
  | typeMismatch (expected found : String)
  | invalidKey (key : String)
  | indexOutOfBounds (index length : Nat)
  | notComparable (left right : String)
  | numericOverflow (target value : String)
  /-- A double that is no number was to be stored. -/
  | nonFinite (number : Binary64)
  | kindChange (before after : String)
  /-- A plain object was to be written that would be read back as an extended entry. -/
  | ambiguousObject (marker : String)
  /-- A text is no document; line and column say where that was noticed. -/
  | malformed (line column : Nat) (fault : Fault)
  /-- A text was to be an object and is none. -/
  | invalidObject (cause : Error)
  | depthLimit (limit : Nat)
  /-- A stream could not be read or written. -/
  | stream (message : String)
  | reported (message : String)
deriving DecidableEq

namespace Error

def message : Error → String
  | nullArgument what => "Null argument: " ++ what ++ " must not be null"
  | typeMismatch expected found => "Type mismatch: expected " ++ expected ++ ", found " ++ found
  | invalidKey key => "Invalid key: " ++ Text.quoted key
  | indexOutOfBounds index length =>
    "Index " ++ toString index ++ " out of bounds for array of length " ++ toString length
  | notComparable left right =>
    "Values of type " ++ left ++ " and " ++ right ++ " are not comparable"
  | numericOverflow target value =>
    "Numeric overflow: " ++ value ++ " does not fit in " ++ target
  | nonFinite number =>
    "Non-finite number " ++ String.ofList number.text ++ " cannot be stored as a JSON number"
  | kindChange before after =>
    "Cannot change the type of an entry from " ++ before ++ " to " ++ after
  | ambiguousObject marker =>
    "Object with the single key " ++ Text.quoted marker ++ " would read back as an extended value"
  | malformed line column fault =>
    "Syntax error at line " ++ toString line ++ ", column " ++ toString column ++ ": " ++
      fault.message
  | invalidObject cause => "Invalid JSON object: " ++ cause.message
  | depthLimit limit => "Nesting depth limit of " ++ toString limit ++ " exceeded"
  | stream message => "IO error: " ++ message
  | reported message => "Error: " ++ message

/-- The error that an error was caused by, if it was caused by one. -/
def cause? : Error → Option Error
  | invalidObject cause => some cause
  | _ => none

end Error

end ExtendedJson
