import ExtendedJson.Value.Number
import ExtendedJson.Writer.Writer

/-!
# The order of values

Numbers of all kinds are ordered among themselves; every other kind only within itself, with absent
payloads first. Arrays are ordered by their first unequal items and then by length, objects by their
compact text. Values of kinds that do not go together are not comparable, and neither are arrays
that come upon such a pair of items.

Two values are equal when they are comparable and neither comes first.
-/

namespace ExtendedJson.Value

/-- The order of two numeric values. Equal kinds are compared directly, mixed kinds by their places
on the line of all numbers. -/
def compareNumbers? (a b : Value) : Option Ordering :=
  match a, b with
  | integer a, integer b => some (Ord.compare a b)
  | long a, long b => some (Ord.compare a b)
  | integer a, long b => some (Ord.compare a.toInt64 b)
  | long a, integer b => some (Ord.compare a b.toInt64)
  | double a, double b => some (a.compare b)
  | decimal a, decimal b => some (a.compare b)
  | a, b =>
    match a.numericKey?, b.numericKey? with
    | some a, some b => some (a.compare b)
    | _, _ => none

/-- The order of two values that are not both arrays with items. -/
def compareFlat (a b : Value) : Except Error Ordering :=
  match compareNumbers? a b with
  | some ordering => .ok ordering
  | none =>
    match a, b with
    | boolean a, boolean b => .ok (Ord.compare a b)
    | date a, date b => .ok (Ord.compare a b)
    | time a, time b => .ok (Ord.compare a b)
    | timestamp a, timestamp b => .ok (Ord.compare a b)
    | string a, string b => .ok (Ord.compare a b)
    | binary a, binary b => .ok (Ord.compare a b)
    | array a, array b => .ok (Ord.compare a.isSome b.isSome)
    | object a, object b =>
      .ok (Ord.compare (a.map Object.comparisonText) (b.map Object.comparisonText))
    | a, b => .error (.notComparable a.kind.name b.kind.name)

mutual

/-- The order of two values. -/
def compare (a b : Value) : Except Error Ordering :=
  match a, b with
  | array (some as), array (some bs) => compareItems as bs
  | a, b => compareFlat a b

/-- The order of two lists of items. -/
def compareItems (as bs : List Value) : Except Error Ordering :=
  match as, bs with
  | [], [] => .ok .eq
  | [], _ :: _ => .ok .lt
  | _ :: _, [] => .ok .gt
  | a :: as, b :: bs =>
    match compare a b with
    | .ok .eq => compareItems as bs
    | unequal => unequal

end

/-- Whether two values are equal. -/
def same (a b : Value) : Bool :=
  match a.compare b with
  | .ok .eq => true
  | _ => false

/-- The order of two values, where there is one. -/
def partialCompare (a b : Value) : Option Ordering :=
  match a.compare b with
  | .ok ordering => some ordering
  | .error _ => none

end ExtendedJson.Value
