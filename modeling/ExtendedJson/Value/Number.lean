import ExtendedJson.Entry.Number
import ExtendedJson.Value.Basic

/-!
# Numeric values

Every numeric kind can be asked for as every other. Widening is exact, but for a long or a decimal
that lies between two doubles. Narrowing truncates toward zero and fails when the result does not
fit.

`numericKey` puts all numbers on one line, with the infinities at its ends and not-a-number behind
them.
-/

namespace ExtendedJson

/-- A place on the line of all numbers. -/
inductive NumericKey where
  | negativeInfinity
  | finite (number : Decimal)
  | positiveInfinity
  | nan
deriving DecidableEq

namespace NumericKey

/-- The stretch of the line that a key lies on. -/
def stretch : NumericKey → Nat
  | negativeInfinity => 0
  | finite _ => 1
  | positiveInfinity => 2
  | nan => 3

def compare (a b : NumericKey) : Ordering :=
  match a, b with
  | finite a, finite b => a.compare b
  | a, b => Ord.compare a.stretch b.stretch

/-- The key with its number in the one spelling that equal numbers share. -/
def normalize : NumericKey → NumericKey
  | finite number => finite number.normalize
  | other => other

def ofBinary64 (x : Binary64) : NumericKey :=
  if x.isNaN then nan
  else if x.isInfinite then if x.negative then negativeInfinity else positiveInfinity
  else
    match x.toDecimal? with
    | some number => finite number
    | none => nan

end NumericKey

namespace Value

/-- The place of a numeric value on the line of all numbers. -/
def numericKey? : Value → Option NumericKey
  | decimal value => some (.finite value)
  | double value => some (.ofBinary64 value)
  | integer value => some (.finite (Decimal.ofInt value.toInt))
  | long value => some (.finite (Decimal.ofInt value.toInt))
  | _ => none

def getDecimal : Value → Except Error Decimal
  | decimal value => .ok value
  | double value => Decimal.ofBinary64 value
  | integer value => .ok (Decimal.ofInt value.toInt)
  | long value => .ok (Decimal.ofInt value.toInt)
  | other => .error (mismatch .decimal other)

def getDouble : Value → Except Error Binary64
  | double value => .ok value
  | integer value => .ok (Binary64.ofInt value.toInt)
  | long value => .ok (Binary64.ofInt value.toInt)
  | decimal value =>
    let x := value.toBinary64
    if x.isFinite then .ok x
    else .error (.numericOverflow Kind.double.name (String.ofList value.display))
  | other => .error (mismatch .double other)

/-- An integer if it fits in a signed word of so many bits; otherwise the complaint that what is
shown does not fit in a kind. -/
def fit (target : Kind) (bits : Nat) (shown : List Char) (n : Option Int) : Except Error Int :=
  match n with
  | some n =>
    if -pow2 (bits - 1) ≤ n ∧ n < pow2 (bits - 1) then .ok n
    else .error (.numericOverflow target.name (String.ofList shown))
  | none => .error (.numericOverflow target.name (String.ofList shown))

/-- A finite double truncated. -/
def truncateDouble? (x : Binary64) : Option Int := if x.isFinite then some x.truncate else none

/-- The integer part, when it fits in 32 bits. -/
def getInteger : Value → Except Error Int32
  | integer value => .ok value
  | long value =>
    (fit .integer 32 (Decimal.ofInt value.toInt).display (some value.toInt)).map Int32.ofInt
  | double value => (fit .integer 32 value.text (truncateDouble? value)).map Int32.ofInt
  | decimal value =>
    -- an integer of 32 bits has at most ten digits
    (fit .integer 32 value.display (value.integerPart? 10)).map Int32.ofInt
  | other => .error (mismatch .integer other)

/-- The integer part, when it fits in 64 bits. -/
def getLong : Value → Except Error Int64
  | long value => .ok value
  | integer value => .ok value.toInt64
  | double value => (fit .long 64 value.text (truncateDouble? value)).map Int64.ofInt
  | decimal value =>
    -- an integer of 64 bits has at most nineteen digits
    (fit .long 64 value.display (value.integerPart? 19)).map Int64.ofInt
  | other => .error (mismatch .long other)

end Value

end ExtendedJson
