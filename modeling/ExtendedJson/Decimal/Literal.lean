import ExtendedJson.Decimal.Basic
import ExtendedJson.Fault

/-!
# Number literals

A literal is an optional minus, an integer without leading zeros, and optionally a fraction and an
exponent. `Literal.scan` takes one off the front of a text; `Literal.value` is the decimal it
spells: its digits without the point, at a scale of as many places as the fraction has digits, less
the exponent. No digit is lost and no zero is dropped.

The exponent is bounded, since plain text spells it out in zeros: a literal of a few characters
must not stand for a text of millions.
-/

namespace ExtendedJson

/-- The parts of a number literal. Absent parts have no digits. -/
structure Literal where
  negative : Bool
  whole : List Char
  fraction : List Char
  exponentNegative : Bool
  exponent : List Char
deriving DecidableEq

namespace Literal

/-- The number that a run of digits spells. -/
def digitValue (digits : List Char) : Nat := Nat.ofDigitChars 10 digits 0

/-- The exponent with its sign; zero where none is written. -/
def exponentValue (l : Literal) : Int :=
  if l.exponentNegative then -(digitValue l.exponent : Int) else digitValue l.exponent

/-- The decimal that a literal spells. -/
def value (l : Literal) : Decimal :=
  let digits : Int := digitValue (l.whole ++ l.fraction)
  ⟨if l.negative then -digits else digits, l.fraction.length - l.exponentValue⟩

/-- The integer part: a lone zero, or a run of digits. -/
def scanWhole : List Char → Scan (List Char)
  | '0' :: _ => .ok (['0'], 1)
  | text =>
    match text.takeWhile Char.isDigit with
    | [] => .error (.noDigit, 0)
    | digits => .ok (digits, digits.length)

/-- The digits behind a point, if there is a point. -/
def scanFraction : List Char → Scan (List Char)
  | '.' :: rest =>
    match rest.takeWhile Char.isDigit with
    | [] => .error (.noFractionDigit, 1)
    | digits => .ok (digits, digits.length + 1)
  | _ => .ok ([], 0)

/-- The sign of an exponent, which may be left out, and its width. -/
def scanExponentSign : List Char → Bool × Nat
  | '-' :: _ => (true, 1)
  | '+' :: _ => (false, 1)
  | _ => (false, 0)

/-- Sign and digits behind an `e`, if there is an `e`. -/
def scanExponent (maxExponent : Nat) (text : List Char) : Scan (Bool × List Char) :=
  if text.head? = some 'e' ∨ text.head? = some 'E' then
    let rest := text.drop 1
    let (negative, signWidth) := scanExponentSign rest
    match (rest.drop signWidth).takeWhile Char.isDigit with
    | [] => .error (.noExponentDigit, 1 + signWidth)
    | digits =>
      let used := 1 + signWidth + digits.length
      if digitValue digits > maxExponent then .error (.exponentOutOfRange, used)
      else .ok ((negative, digits), used)
  else .ok ((false, []), 0)

/-- The literal at the front of a text. A leading zero ends the integer part, so `01` is the
literal `0` with a `1` behind it. -/
def scan (maxExponent : Nat) (text : List Char) : Scan Literal :=
  let negative : Bool := text.head? = some '-'
  let signWidth := if negative then 1 else 0
  match scanWhole (text.drop signWidth) with
  | .error (fault, used) => .error (fault, signWidth + used)
  | .ok (whole, wholeWidth) =>
    let toFraction := signWidth + wholeWidth
    match scanFraction (text.drop toFraction) with
    | .error (fault, used) => .error (fault, toFraction + used)
    | .ok (fraction, fractionWidth) =>
      let toExponent := toFraction + fractionWidth
      match scanExponent maxExponent (text.drop toExponent) with
      | .error (fault, used) => .error (fault, toExponent + used)
      | .ok ((exponentNegative, exponent), exponentWidth) =>
        .ok (⟨negative, whole, fraction, exponentNegative, exponent⟩, toExponent + exponentWidth)

/-- An integer part has at least one digit. -/
theorem scanWhole_pos {text whole : List Char} {used : Nat}
    (h : scanWhole text = .ok (whole, used)) : 0 < used := by
  unfold scanWhole at h
  split at h
  · injection h with h
    injection h with _ h
    omega
  · split at h
    · simp at h
    · next hne =>
      injection h with h
      injection h with _ h
      rw [← h]
      exact List.length_pos_iff.mpr hne

/-- A literal takes up at least one character. -/
theorem scan_pos {maxExponent : Nat} {text : List Char} {l : Literal} {used : Nat}
    (h : scan maxExponent text = .ok (l, used)) : 0 < used := by
  unfold scan at h
  simp only at h
  split at h
  · simp at h
  · next hw =>
    have := scanWhole_pos hw
    split at h
    · simp at h
    · split at h
      · simp at h
      · injection h with h
        injection h with _ h
        omega

end Literal

end ExtendedJson
