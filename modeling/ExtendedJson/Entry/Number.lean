import ExtendedJson.Binary64.OfDecimal
import ExtendedJson.Entry.Basic

/-!
# Numbers as entries

Numbers of every kind are stored as decimals. A double is stored as the decimal it stands for, and
a double that stands for none is not stored at all.
-/

namespace ExtendedJson

/-- The decimal that a double is stored as. -/
def Decimal.ofBinary64 (x : Binary64) : Except Error Decimal :=
  match x.toDecimal? with
  | some d => .ok d
  | none => .error (.nonFinite x)

/-- The entry of a double. -/
def Entry.ofBinary64 (x : Binary64) : Except Error Entry :=
  match Decimal.ofBinary64 x with
  | .ok d => .ok (.number d)
  | .error error => .error error

/-- The entry of an integer. -/
def Entry.ofInt (n : Int) : Entry := .number (Decimal.ofInt n)

end ExtendedJson
