import ExtendedJson.Text.Quoted

/-!
# Bytes as hexadecimal digits

Two lowercase digits a byte. Decoding accepts both cases and nothing else; an odd length is noticed
before any bad digit, and a bad digit is named by its place in the text, counted in bytes.
-/

namespace ExtendedJson.Hex

/-- Why a text is no byte string. -/
inductive Fault where
  | oddLength
  | badDigit (byte : UInt8) (index : Nat)
deriving DecidableEq

def Fault.message : Fault → String
  | oddLength => "Odd number of digits"
  | badDigit byte index =>
    "Invalid character " ++ Text.quotedChar (Char.ofNat byte.toNat) ++ " at position " ++
      toString index

/-- The two digits of a byte. -/
def encodeByte (byte : UInt8) : List Char :=
  [Nat.digitChar (byte.toNat / 16), Nat.digitChar (byte.toNat % 16)]

/-- The digits of a byte string. -/
def encode (bytes : List UInt8) : List Char := bytes.flatMap encodeByte

/-- The value of a digit, which is given by its code. -/
def digitValue? (byte : UInt8) : Option Nat :=
  let code := byte.toNat
  if '0'.toNat ≤ code ∧ code ≤ '9'.toNat then some (code - '0'.toNat)
  else if 'a'.toNat ≤ code ∧ code ≤ 'f'.toNat then some (code - 'a'.toNat + 10)
  else if 'A'.toNat ≤ code ∧ code ≤ 'F'.toNat then some (code - 'A'.toNat + 10)
  else none

/-- Decodes digit pairs; `index` is the place of the first of them. -/
def decodePairs (index : Nat) : List UInt8 → Except Fault (List UInt8)
  | [] => .ok []
  | [_] => .error .oddLength
  | high :: low :: rest =>
    match digitValue? high, digitValue? low with
    | none, _ => .error (.badDigit high index)
    | _, none => .error (.badDigit low (index + 1))
    | some h, some l =>
      match decodePairs (index + 2) rest with
      | .error fault => .error fault
      | .ok bytes => .ok (UInt8.ofNat (16 * h + l) :: bytes)

/-- The byte string that a text spells. -/
def decode (text : String) : Except Fault (List UInt8) :=
  let digits := text.toList.flatMap String.utf8EncodeChar
  if digits.length % 2 = 1 then .error .oddLength else decodePairs 0 digits

end ExtendedJson.Hex
