import ExtendedJson.Entry.Basic
import ExtendedJson.Decimal.Equality

/-!
# Equal entries

Entries are equal when they have the same shape and the same payloads, numbers being taken by
`Decimal.same`: `1.0` equals `1.00`. The order of members matters.
-/

namespace ExtendedJson.Entry

mutual

/-- Whether two entries are equal. -/
def same : Entry → Entry → Bool
  | .null, .null => true
  | .boolean a, .boolean b => a == b
  | .number a, .number b => a.same b
  | .string a, .string b => a == b
  | .array a, .array b => sameItems a b
  | .object ⟨a⟩, .object ⟨b⟩ => samePairs a b
  | .binary a, .binary b => a == b
  | .date a, .date b => a == b
  | .time a, .time b => a == b
  | .timestamp a, .timestamp b => a == b
  | _, _ => false

/-- Whether two arrays have equal items. -/
def sameItems : List Entry → List Entry → Bool
  | [], [] => true
  | a :: as, b :: bs => same a b && sameItems as bs
  | _, _ => false

/-- Whether two objects have the same keys in the same order with equal entries. -/
def samePairs : List (String × Entry) → List (String × Entry) → Bool
  | [], [] => true
  | (k, a) :: as, (l, b) :: bs => k == l && same a b && samePairs as bs
  | _, _ => false

end

end ExtendedJson.Entry
