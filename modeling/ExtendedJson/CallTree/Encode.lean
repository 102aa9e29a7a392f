import ExtendedJson.Bridge
import ExtendedJson.CallTree.Basic

/-!
# Entries as call trees

A frame knows no decimals: integers that fit in 64 bits stay exact, and every other number goes as
a double, which it must not exceed. Extended entries go as their wrappers, the text as an optional
datum. An object that would be read back as an extended entry is refused, as it is by the writer.
-/

namespace ExtendedJson.Entry

/-- The call for a number. -/
def numberCall (d : Decimal) : Except Error CallTree :=
  -- an unsigned integer of 64 bits has at most twenty digits
  match d.toInt? 20 with
  | some n =>
    if -pow2 63 ≤ n ∧ n < pow2 63 then .ok (.int64 (Int64.ofInt n))
    else if 0 ≤ n ∧ n < pow2 64 then .ok (.uint64 (UInt64.ofNat n.toNat))
    else doubleCall d
  | none => doubleCall d
where
  /-- The call for a number that goes as a double. -/
  doubleCall (d : Decimal) : Except Error CallTree :=
    let x := d.toBinary64
    if x.isFinite then .ok (.double x)
    else .error (.reported ("number " ++ String.ofList d.display ++ " is out of range for serde"))

/-- The calls for an extended entry. -/
def wrapperCall (kind : Kind) (text : Option (List Char)) : CallTree :=
  .map (some 1)
    [(.text (kind.marker?.getD ""),
      match text with
      | some text => .some (.text (String.ofList text))
      | none => .none)]

mutual

/-- The calls for an entry. -/
def toCallTree : Entry → Except Error CallTree
  | .null => .ok .unit
  | .boolean value => .ok (.boolean value)
  | .number value => numberCall value
  | .string value => .ok (.text value)
  | .array items =>
    match itemCalls items with
    | .error error => .error error
    | .ok calls => .ok (.seq (some items.length) calls)
  | .object ⟨pairs⟩ =>
    match Object.wrapper? ⟨pairs⟩ with
    | some (kind, _) =>
      .error (.reported (Error.ambiguousObject (kind.marker?.getD "")).message)
    | none =>
      match memberCalls pairs with
      | .error error => .error error
      | .ok calls => .ok (.map (some pairs.length) calls)
  | .binary payload => .ok (wrapperCall .binary (payload.map Hex.encode))
  | .date payload => .ok (wrapperCall .date (payload.map Date.text))
  | .time payload => .ok (wrapperCall .time (payload.map TimeOfDay.text))
  | .timestamp payload => .ok (wrapperCall .timestamp (payload.map Timestamp.text))

/-- The calls for the items of an array. -/
def itemCalls : List Entry → Except Error (List CallTree)
  | [] => .ok []
  | item :: items =>
    match toCallTree item with
    | .error error => .error error
    | .ok call =>
      match itemCalls items with
      | .error error => .error error
      | .ok calls => .ok (call :: calls)

/-- The calls for the members of an object. -/
def memberCalls : List (String × Entry) → Except Error (List (CallTree × CallTree))
  | [] => .ok []
  | (key, value) :: pairs =>
    match toCallTree value with
    | .error error => .error error
    | .ok call =>
      match memberCalls pairs with
      | .error error => .error error
      | .ok calls => .ok ((.text key, call) :: calls)

end

end ExtendedJson.Entry

namespace ExtendedJson

/-- The calls for a value: those for the entry it is stored as. -/
def Value.toCallTree (value : Value) : Except Error CallTree :=
  match value.toEntry with
  | .error error => .error (.reported error.message)
  | .ok entry => entry.toCallTree

end ExtendedJson
