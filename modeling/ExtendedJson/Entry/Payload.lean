import ExtendedJson.Entry.Basic

/-!
# Entries from a kind and a payload

A payload is what an entry holds; the null entry and extended entries without payload hold none.
Kind and payload can be given apart and have to agree.
-/

namespace ExtendedJson

/-- What an entry can hold. -/
inductive Payload where
  | object (members : Object)
  | array (items : List Entry)
  | string (value : String)
  | number (value : Decimal)
  | boolean (value : Bool)
  | binary (bytes : List UInt8)
  | date (value : Date)
  | time (value : TimeOfDay)
  | timestamp (value : Timestamp)

namespace Payload

def kind : Payload → Entry.Kind
  | object _ => .object
  | array _ => .array
  | string _ => .string
  | number _ => .number
  | boolean _ => .boolean
  | binary _ => .binary
  | date _ => .date
  | time _ => .time
  | timestamp _ => .timestamp

def toEntry : Payload → Entry
  | object members => .object members
  | array items => .array items
  | string value => .string value
  | number value => .number value
  | boolean value => .boolean value
  | binary bytes => .binary (some bytes)
  | date value => .date (some value)
  | time value => .time (some value)
  | timestamp value => .timestamp (some value)

end Payload

namespace Entry

/-- What an entry holds, if it holds anything. -/
def payload? : Entry → Option Payload
  | null => none
  | boolean value => some (.boolean value)
  | number value => some (.number value)
  | string value => some (.string value)
  | array items => some (.array items)
  | object members => some (.object members)
  | binary payload => payload.map .binary
  | date payload => payload.map .date
  | time payload => payload.map .time
  | timestamp payload => payload.map .timestamp

/-- The entry of a kind with a payload of that kind. Only null and the extended kinds can do without
a payload. -/
def withKind (kind : Kind) : Option Payload → Except Error Entry
  | none =>
    match kind with
    | .null => .ok null
    | .binary => .ok (binary none)
    | .date => .ok (date none)
    | .time => .ok (time none)
    | .timestamp => .ok (timestamp none)
    | other => .error (.nullArgument (other.name ++ " payload"))
  | some payload =>
    if payload.kind = kind then .ok payload.toEntry
    else .error (.typeMismatch kind.name payload.kind.name)

end Entry

end ExtendedJson
