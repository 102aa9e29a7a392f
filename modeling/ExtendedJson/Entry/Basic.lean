import ExtendedJson.Decimal.Basic
import ExtendedJson.Calendar.Basic
import ExtendedJson.Error
import ExtendedJson.Members

/-!
# Entries

A document is a tree of entries. Besides the six kinds of plain JSON there are four extended
kinds: byte strings, dates, times of day and timestamps. JSON has no spelling of its own for those,
so a text holds each as an object with a single key, the marker of its kind, whose value is the text
of the payload, or `null` when the payload is absent.
-/

namespace ExtendedJson

/-- One datum of a document. -/
inductive Entry where
  | null
  | boolean (value : Bool)
  | number (value : Decimal)
  | string (value : String)
  | array (items : List Entry)
  | object (members : Members Entry)
  | binary (payload : Option (List UInt8))
  | date (payload : Option Date)
  | time (payload : Option TimeOfDay)
  | timestamp (payload : Option Timestamp)

/-- Entries under keys. -/
abbrev Object := Members Entry

namespace Entry

instance : Inhabited Entry := ⟨.null⟩

/-- What an entry is. -/
inductive Kind where
  | null
  | object
  | array
  | string
  | number
  | boolean
  | binary
  | date
  | time
  | timestamp
deriving DecidableEq

namespace Kind

def name : Kind → String
  | null => "NULL"
  | object => "OBJECT"
  | array => "ARRAY"
  | string => "STRING"
  | number => "NUMBER"
  | boolean => "BOOLEAN"
  | binary => "BINARY"
  | date => "DATE"
  | time => "TIME"
  | timestamp => "TIMESTAMP"

/-- The key under which a text holds an entry of an extended kind. -/
def marker? : Kind → Option String
  | binary => some "%bn%"
  | date => some "%dt%"
  | time => some "%tm%"
  | timestamp => some "%ts%"
  | _ => none

/-- Whether JSON has no spelling of its own for the kind. -/
def isExtended (kind : Kind) : Bool := kind.marker?.isSome

/-- Whether an entry of the kind can do without a payload. -/
def isNullable (kind : Kind) : Bool := kind == null || kind.isExtended

/-- The extended kind with that marker. -/
def ofMarker? (marker : String) : Option Kind :=
  [binary, date, time, timestamp].find? fun kind => kind.marker? == some marker

end Kind

def kind : Entry → Kind
  | null => .null
  | boolean _ => .boolean
  | number _ => .number
  | string _ => .string
  | array _ => .array
  | object _ => .object
  | binary _ => .binary
  | date _ => .date
  | time _ => .time
  | timestamp _ => .timestamp

/-- Whether an entry has no payload. -/
def isNull : Entry → Bool
  | null | binary none | date none | time none | timestamp none => true
  | _ => false

/-- The complaint that an entry is not of an expected kind. -/
def mismatch (expected : Kind) (found : Entry) : Error :=
  .typeMismatch expected.name found.kind.name

def asObject : Entry → Except Error Object
  | object members => .ok members
  | other => .error (mismatch .object other)

def asArray : Entry → Except Error (List Entry)
  | array items => .ok items
  | other => .error (mismatch .array other)

def asString : Entry → Except Error String
  | string value => .ok value
  | other => .error (mismatch .string other)

def asNumber : Entry → Except Error Decimal
  | number value => .ok value
  | other => .error (mismatch .number other)

def asBoolean : Entry → Except Error Bool
  | boolean value => .ok value
  | other => .error (mismatch .boolean other)

def asBinary : Entry → Except Error (Option (List UInt8))
  | binary payload => .ok payload
  | other => .error (mismatch .binary other)

def asDate : Entry → Except Error (Option Date)
  | date payload => .ok payload
  | other => .error (mismatch .date other)

def asTime : Entry → Except Error (Option TimeOfDay)
  | time payload => .ok payload
  | other => .error (mismatch .time other)

def asTimestamp : Entry → Except Error (Option Timestamp)
  | timestamp payload => .ok payload
  | other => .error (mismatch .timestamp other)

end Entry

namespace Object

/-- The entry under a key that has to be present. -/
def get (o : Object) (key : String) : Except Error Entry :=
  match o.get? key with
  | some entry => .ok entry
  | none => .error (.invalidKey key)

end Object

end ExtendedJson
