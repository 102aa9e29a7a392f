import ExtendedJson.Value.Basic

/-!
# Values from host data

What a host program hands over: data of one of its own types, possibly absent. Kinds that cannot do
without a payload take their default for what is absent.
-/

namespace ExtendedJson

/-- A datum of a host program. -/
inductive Native where
  | boolean (value : Option Bool)
  | decimal (value : Option Decimal)
  | bigInteger (value : Int)
  | double (value : Option Binary64)
  | integer (value : Option Int32)
  | long (value : Option Int64)
  | date (value : Option Date)
  | time (value : Option TimeOfDay)
  | timestamp (value : Option Timestamp)
  | string (value : Option String)
  | binary (value : Option (List UInt8))
  | array (value : Option (List Value))
  | object (value : Option Object)

namespace Value

def ofNative : Native → Value
  | .boolean value => .boolean (value.getD false)
  | .decimal value => decimalOrZero value 0
  | .bigInteger value => .decimal (Decimal.ofInt value)
  | .double value => .double (value.getD Binary64.zero)
  | .integer value => .integer (value.getD 0)
  | .long value => .long (value.getD 0)
  | .date value => .date value
  | .time value => .time value
  | .timestamp value => .timestamp value
  | .string value => .string (some (value.getD ""))
  | .binary value => .binary value
  | .array value => .array value
  | .object value => .object value

end Value

end ExtendedJson
