import ExtendedJson.Document
import ExtendedJson.Entry.Number
import ExtendedJson.Value.Basic

/-!
# Between values and entries

Values of every kind can be stored as entries. Numbers lose their kind, since entries know only
decimals, and absent strings, arrays and objects become `null`. Doubles that are no numbers cannot
be stored; the first of them is the error.

A row of values is stored as an object with one array under a fixed key.
-/

namespace ExtendedJson

mutual

/-- The entry that a value is stored as. -/
def Value.toEntry : Value → Except Error Entry
  | .boolean value => .ok (.boolean value)
  | .decimal value => .ok (.number value)
  | .double value => Entry.ofBinary64 value
  | .integer value => .ok (Entry.ofInt value.toInt)
  | .long value => .ok (Entry.ofInt value.toInt)
  | .date payload => .ok (.date payload)
  | .time payload => .ok (.time payload)
  | .timestamp payload => .ok (.timestamp payload)
  | .string (some value) => .ok (.string value)
  | .string none => .ok .null
  | .binary payload => .ok (.binary payload)
  | .array none => .ok .null
  | .array (some items) =>
    match Value.toItems items with
    | .error error => .error error
    | .ok items => .ok (.array items)
  | .object none => .ok .null
  | .object (some members) => .ok (.object members)

/-- The items that values are stored as. -/
def Value.toItems : List Value → Except Error (List Entry)
  | [] => .ok []
  | value :: values =>
    match Value.toEntry value with
    | .error error => .error error
    | .ok item =>
      match Value.toItems values with
      | .error error => .error error
      | .ok items => .ok (item :: items)

end

mutual

/-- The value that an entry holds. -/
def Entry.toValue : Entry → Value
  | .null => .string none
  | .boolean value => .boolean value
  | .number value => .decimal value
  | .string value => .string (some value)
  | .array items => .array (some (Entry.toValues items))
  | .object members => .object (some members)
  | .binary payload => .binary payload
  | .date payload => .date payload
  | .time payload => .time payload
  | .timestamp payload => .timestamp payload

/-- The values that items hold. -/
def Entry.toValues : List Entry → List Value
  | [] => []
  | item :: items => Entry.toValue item :: Entry.toValues items

end

/-- The key under which a row of values is stored. -/
def rowKey : String := "value_array"

/-- The object that a row of values is stored as. -/
def rowToObject (values : List Value) : Except Error Object :=
  match Value.toItems values with
  | .error error => .error error
  | .ok items => .ok (Members.empty.put rowKey (.array items))

/-- The row of values that an object stores. -/
def rowOfObject (members : Object) : Except Error (List Value) :=
  match Object.get members rowKey with
  | .error error => .error error
  | .ok entry =>
    match entry.asArray with
    | .error error => .error error
    | .ok items => .ok (Entry.toValues items)

/-- The text of a value as a document. -/
def Value.write (value : Value) (options : WriterOptions := {}) : Except Error String :=
  match value.toEntry with
  | .error error => .error error
  | .ok entry => entry.write options

/-- The value that a document holds. -/
def parseValue (text : String) : Except Error Value :=
  match parseEntry text with
  | .error error => .error error
  | .ok entry => .ok entry.toValue

end ExtendedJson
