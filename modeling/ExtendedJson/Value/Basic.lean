import ExtendedJson.Entry.Basic

/-!
# Values

A value is one typed datum, such as a column of a table holds. There are four kinds of number, and
several kinds can be without a payload. A string without payload is the image of the JSON `null`; it
reads as the empty string.
-/

namespace ExtendedJson

/-- One typed datum. -/
inductive Value where
  | boolean (value : Bool)
  | decimal (value : Decimal)
  | double (value : Binary64)
  | integer (value : Int32)
  | long (value : Int64)
  | date (payload : Option Date)
  | time (payload : Option TimeOfDay)
  | timestamp (payload : Option Timestamp)
  | string (payload : Option String)
  | binary (payload : Option (List UInt8))
  | array (payload : Option (List Value))
  | object (payload : Option Object)

namespace Value

instance : Inhabited Value := ⟨.string none⟩

/-- What a value is. -/
inductive Kind where
  | boolean
  | decimal
  | double
  | integer
  | long
  | date
  | time
  | timestamp
  | string
  | binary
  | array
  | object
deriving DecidableEq

namespace Kind

def name : Kind → String
  | boolean => "BOOLEAN"
  | decimal => "DECIMAL"
  | double => "DOUBLE"
  | integer => "INTEGER"
  | long => "LONG"
  | date => "DATE"
  | time => "TIME"
  | timestamp => "TIMESTAMP"
  | string => "STRING"
  | binary => "BINARY"
  | array => "ARRAY"
  | object => "OBJECT"

def isNumeric : Kind → Bool
  | decimal | double | integer | long => true
  | _ => false

/-- Whether values of the kind may be made without a payload. -/
def isNullable : Kind → Bool
  | date | time | timestamp | binary | array | object => true
  | _ => false

end Kind

def kind : Value → Kind
  | boolean _ => .boolean
  | decimal _ => .decimal
  | double _ => .double
  | integer _ => .integer
  | long _ => .long
  | date _ => .date
  | time _ => .time
  | timestamp _ => .timestamp
  | string _ => .string
  | binary _ => .binary
  | array _ => .array
  | object _ => .object

/-- Whether the payload is absent. -/
def isNull : Value → Bool
  | date none | time none | timestamp none | string none | binary none | array none
  | object none => true
  | _ => false

/-- The value of a kind for which nothing was supplied. -/
def default : Kind → Value
  | .boolean => .boolean false
  | .decimal => .decimal ⟨0, 0⟩
  | .double => .double Binary64.zero
  | .integer => .integer 0
  | .long => .long 0
  | .date => .date none
  | .time => .time none
  | .timestamp => .timestamp none
  | .string => .string (some "")
  | .binary => .binary none
  | .array => .array none
  | .object => .object none

/-- A decimal, or zero with that many places where there is none. -/
def decimalOrZero (value : Option Decimal) (scale : Int) : Value :=
  .decimal (value.getD ⟨0, scale⟩)

/-- The complaint that a value is not of an expected kind. -/
def mismatch (expected : Kind) (found : Value) : Error :=
  .typeMismatch expected.name found.kind.name

def getBoolean : Value → Except Error Bool
  | boolean value => .ok value
  | other => .error (mismatch .boolean other)

def getDate : Value → Except Error (Option Date)
  | date payload => .ok payload
  | other => .error (mismatch .date other)

def getTime : Value → Except Error (Option TimeOfDay)
  | time payload => .ok payload
  | other => .error (mismatch .time other)

def getTimestamp : Value → Except Error (Option Timestamp)
  | timestamp payload => .ok payload
  | other => .error (mismatch .timestamp other)

/-- The string, empty when it is absent. -/
def getString : Value → Except Error String
  | string payload => .ok (payload.getD "")
  | other => .error (mismatch .string other)

def getBinary : Value → Except Error (Option (List UInt8))
  | binary payload => .ok payload
  | other => .error (mismatch .binary other)

def getArray : Value → Except Error (Option (List Value))
  | array payload => .ok payload
  | other => .error (mismatch .array other)

def getObject : Value → Except Error (Option Object)
  | object payload => .ok payload
  | other => .error (mismatch .object other)

end Value

end ExtendedJson
