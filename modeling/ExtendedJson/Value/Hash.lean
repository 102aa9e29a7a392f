import ExtendedJson.Value.Order

/-!
# What values are hashed by

`hashTokens` lists the data that a hash of a value is computed from. Equal values have to give equal
lists: numbers of all kinds give the same token for the same number, and objects give the text they
are compared by.
-/

namespace ExtendedJson

/-- A datum that goes into a hash. -/
inductive HashToken where
  | kind (kind : Value.Kind)
  | present (present : Bool)
  | count (count : Nat)
  | number (key : NumericKey)
  | boolean (value : Bool)
  | date (value : Date)
  | time (value : TimeOfDay)
  | timestamp (value : Timestamp)
  | text (text : List Char)
  | bytes (bytes : List UInt8)
deriving DecidableEq

namespace Value

/-- The tokens of a payload that may be absent. -/
def payloadTokens {α : Type} (token : α → HashToken) : Option α → List HashToken
  | none => [.present false]
  | some payload => [.present true, token payload]

mutual

/-- The data that a value is hashed by. -/
def hashTokens : Value → List HashToken
  | .boolean value => [.kind .boolean, .boolean value]
  | .decimal value => [.kind .decimal, .number (.normalize (.finite value))]
  | .double value => [.kind .decimal, .number (.normalize (.ofBinary64 value))]
  | .integer value => [.kind .decimal, .number (.normalize (.finite (Decimal.ofInt value.toInt)))]
  | .long value => [.kind .decimal, .number (.normalize (.finite (Decimal.ofInt value.toInt)))]
  | .date payload => .kind .date :: payloadTokens .date payload
  | .time payload => .kind .time :: payloadTokens .time payload
  | .timestamp payload => .kind .timestamp :: payloadTokens .timestamp payload
  | .string payload => .kind .string :: payloadTokens (fun s => .text s.toList) payload
  | .binary payload => .kind .binary :: payloadTokens .bytes payload
  | .array none => [.kind .array, .present false]
  | .array (some items) =>
    .kind .array :: .present true :: .count items.length :: hashItems items
  | .object payload => .kind .object :: payloadTokens (fun o => .text o.comparisonText) payload

/-- The data that some items are hashed by, one after the other. -/
def hashItems : List Value → List HashToken
  | [] => []
  | item :: items => hashTokens item ++ hashItems items

end

/-- Which values of a list are new: not found, by hash and equality, among those before it. -/
def markNew : (earlier : List Value) → List Value → List Bool
  | _, [] => []
  | earlier, value :: rest =>
    let known := earlier.any fun other =>
      decide (other.hashTokens = value.hashTokens) && other.same value
    (!known) :: markNew (if known then earlier else value :: earlier) rest

end Value

end ExtendedJson
