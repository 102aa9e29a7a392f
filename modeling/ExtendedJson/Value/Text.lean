import ExtendedJson.Value.Basic
import ExtendedJson.Writer.Writer

/-!
# Values as text

A value is shown as its bare payload, an absent one as `null`. An array is shown as JSON, with its
strings quoted. There is no text for an object that cannot be written, nor for an array that holds
one.
-/

namespace ExtendedJson.Value

/-- The text of a payload that may be absent. -/
def payloadText {α : Type} (text : α → List Char) : Option α → List Char
  | none => "null".toList
  | some payload => text payload

/-- The text of a string as an item: quoted, unless it is absent. -/
def itemText? (shown : Option (List Char)) : Value → Option (List Char)
  | .string (some s) => some (JsonString.quote s.toList)
  | _ => shown

mutual

/-- The text of a value. -/
def text? : Value → Option (List Char)
  | .boolean value => some (if value then "true".toList else "false".toList)
  | .decimal value => some value.plain
  | .double value => some value.text
  | .integer value => some (Decimal.ofInt value.toInt).plain
  | .long value => some (Decimal.ofInt value.toInt).plain
  | .date payload => some (payloadText Date.text payload)
  | .time payload => some (payloadText TimeOfDay.text payload)
  | .timestamp payload => some (payloadText Timestamp.text payload)
  | .string payload => some (payloadText String.toList payload)
  | .binary payload => some (payloadText Hex.encode payload)
  | .array none => some "null".toList
  | .array (some items) =>
    match itemsText? [] items with
    | some text => some ('[' :: (text ++ [']']))
    | none => none
  | .object none => some "null".toList
  | .object (some members) =>
    match (Entry.object members).write with
    | .ok text => some text.toList
    | .error _ => none

/-- The texts of items with commas between them; `separator` stands in front of the first. -/
def itemsText? (separator : List Char) : List Value → Option (List Char)
  | [] => some []
  | item :: items =>
    match itemText? (text? item) item, itemsText? [','] items with
    | some text, some rest => some (separator ++ text ++ rest)
    | _, _ => none

end

end ExtendedJson.Value
