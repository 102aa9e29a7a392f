/-!
# Reading UTF-8

Bytes become characters from the front; the first bytes that begin no character are the fault.
`Shape` says for each lead byte how many bytes follow it and within which bounds the first of them
must lie, which is where overlong forms, surrogates and code points past the last plane are refused.
A fault names the place of the lead byte and, unless the input merely ended too early, how many of
the bytes from there could have begun a character.
-/

namespace ExtendedJson.Utf8

/-- Why bytes are no text. -/
inductive Fault where
  | invalid (index length : Nat)
  | incomplete (index : Nat)
deriving DecidableEq

def Fault.message : Fault → String
  | invalid index length =>
    "invalid utf-8 sequence of " ++ toString length ++ " bytes from index " ++ toString index
  | incomplete index => "incomplete utf-8 byte sequence from index " ++ toString index

/-- What a lead byte announces: how many bytes follow, the bounds of the first of them, and the
bits that the lead byte itself contributes. -/
structure Shape where
  following : Nat
  low : Nat
  high : Nat
  bits : Nat
deriving DecidableEq

/-- The shape that a lead byte announces; none for a byte that leads nothing. -/
def shape? (lead : Nat) : Option Shape :=
  if lead < 0x80 then some ⟨0, 0x80, 0xBF, lead⟩
  else if lead < 0xC2 then none
  else if lead < 0xE0 then some ⟨1, 0x80, 0xBF, lead - 0xC0⟩
  else if lead = 0xE0 then some ⟨2, 0xA0, 0xBF, lead - 0xE0⟩
  else if lead = 0xED then some ⟨2, 0x80, 0x9F, lead - 0xE0⟩
  else if lead < 0xF0 then some ⟨2, 0x80, 0xBF, lead - 0xE0⟩
  else if lead = 0xF0 then some ⟨3, 0x90, 0xBF, lead - 0xF0⟩
  else if lead < 0xF4 then some ⟨3, 0x80, 0xBF, lead - 0xF0⟩
  else if lead = 0xF4 then some ⟨3, 0x80, 0x8F, lead - 0xF0⟩
  else none

/-- Takes the bytes that follow a lead byte. Gives the code point, or how many bytes were good and
whether the input ended there. -/
def followers (low high : Nat) : (count code good : Nat) → List UInt8 → Except (Nat × Bool) Nat
  | 0, code, _, _ => .ok code
  | _ + 1, _, good, [] => .error (good, true)
  | count + 1, code, good, byte :: rest =>
    if low ≤ byte.toNat ∧ byte.toNat ≤ high then
      followers 0x80 0xBF count (64 * code + (byte.toNat - 0x80)) (good + 1) rest
    else .error (good, false)

/-- Decodes from the byte at `index` on; `kept` holds the characters so far, last first. -/
def decodeFrom (kept : List Char) (index : Nat) : List UInt8 → Except Fault (List Char)
  | [] => .ok kept.reverse
  | lead :: rest =>
    match shape? lead.toNat with
    | none => .error (.invalid index 1)
    | some shape =>
      match followers shape.low shape.high shape.following shape.bits 1 rest with
      | .error (_, true) => .error (.incomplete index)
      | .error (good, false) => .error (.invalid index good)
      | .ok code =>
        decodeFrom (Char.ofNat code :: kept) (index + 1 + shape.following)
          (rest.drop shape.following)
termination_by bytes => bytes.length
decreasing_by
  rw [List.length_drop, List.length_cons]
  omega

/-- The text that bytes encode. -/
def decode (bytes : List UInt8) : Except Fault String :=
  match decodeFrom [] 0 bytes with
  | .error fault => .error fault
  | .ok chars => .ok (String.ofList chars)

end ExtendedJson.Utf8
