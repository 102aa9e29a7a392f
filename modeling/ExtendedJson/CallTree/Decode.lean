import ExtendedJson.Bridge
import ExtendedJson.CallTree.Basic

/-!
# Entries from call trees

Reading takes any call tree that stands for JSON data. Bytes are taken as a byte string, an absent
datum as `null`, and optional data as what they hold. Keys have to be text. The members of a map are
put into an object one by one, and the object is then read as the entry it stands for, as it is in a
text.
-/

namespace ExtendedJson.CallTree

/-- A double with a point, as complaints show it. -/
def doubleText (x : Binary64) : List Char :=
  let text := x.text
  if x.isFinite && !text.contains '.' then text ++ ['.', '0'] else text

/-- How a complaint names what was found. -/
def found : CallTree → String
  | unit => "unit value"
  | none | some _ => "Option value"
  | newtype _ => "newtype struct"
  | boolean value => "boolean `" ++ (if value then "true" else "false") ++ "`"
  | int64 value => "integer `" ++ String.ofList (Decimal.ofInt value.toInt).plain ++ "`"
  | uint64 value => "integer `" ++ String.ofList (Decimal.ofInt value.toNat).plain ++ "`"
  | int128 value => "integer `" ++ String.ofList (Decimal.ofInt value).plain ++ "` as i128"
  | uint128 value => "integer `" ++ String.ofList (Decimal.ofInt value).plain ++ "` as u128"
  | double value => "floating point `" ++ String.ofList (doubleText value) ++ "`"
  | char value => "character `" ++ String.singleton value ++ "`"
  | text value => "string " ++ Text.quoted value
  | bytes _ => "byte array"
  | seq _ _ => "sequence"
  | map _ _ => "map"

/-- The complaint about a datum of another type than was expected. -/
def invalidType (tree : CallTree) (expected : String) : Error :=
  .reported ("invalid type: " ++ tree.found ++ ", expected " ++ expected)

/-- The key of a member. -/
def toKey : CallTree → Except Error String
  | text value => .ok value
  | char value => .ok (String.singleton value)
  | bytes value =>
    match Utf8.decode value with
    | .ok key => .ok key
    | .error _ => .error (.reported "invalid value: byte array, expected a string")
  | other => .error (other.invalidType "a string")

mutual

/-- The entry that a call tree stands for. -/
def toEntry : CallTree → Except Error Entry
  | .unit => .ok .null
  | .none => .ok .null
  | .some inner => toEntry inner
  | .newtype inner => .error ((CallTree.newtype inner).invalidType "any valid JSON value")
  | .boolean value => .ok (.boolean value)
  | .int64 value => .ok (Entry.ofInt value.toInt)
  | .uint64 value => .ok (Entry.ofInt value.toNat)
  | .int128 value => .error ((CallTree.int128 value).invalidType "any valid JSON value")
  | .uint128 value => .error ((CallTree.uint128 value).invalidType "any valid JSON value")
  | .double value =>
    match Entry.ofBinary64 value with
    | .error error => .error (.reported error.message)
    | .ok entry => .ok entry
  | .char value => .ok (.string (String.singleton value))
  | .text value => .ok (.string value)
  | .bytes value => .ok (.binary (Option.some value))
  | .seq _ items =>
    match toItems items with
    | .error error => .error error
    | .ok items => .ok (.array items)
  | .map _ pairs =>
    match toMembers pairs with
    | .error error => .error error
    | .ok pairs =>
      match Entry.ofObject (Members.ofPairs pairs) with
      | .error error => .error (.reported error.message)
      | .ok entry => .ok entry

/-- The items that call trees stand for. -/
def toItems : List CallTree → Except Error (List Entry)
  | [] => .ok []
  | tree :: trees =>
    match toEntry tree with
    | .error error => .error error
    | .ok item =>
      match toItems trees with
      | .error error => .error error
      | .ok items => .ok (item :: items)

/-- The members that pairs of call trees stand for. Each key is read before its entry. -/
def toMembers : List (CallTree × CallTree) → Except Error (List (String × Entry))
  | [] => .ok []
  | (key, value) :: pairs =>
    match toKey key with
    | .error error => .error error
    | .ok key =>
      match toEntry value with
      | .error error => .error error
      | .ok entry =>
        match toMembers pairs with
        | .error error => .error error
        | .ok members => .ok ((key, entry) :: members)

end

/-- The object that a call tree stands for. -/
def toObject (tree : CallTree) : Except Error Object :=
  match tree.toEntry with
  | .error error => .error error
  | .ok entry =>
    match entry.asObject with
    | .error error => .error (.reported error.message)
    | .ok members => .ok members

/-- The array that a call tree stands for. -/
def toArray (tree : CallTree) : Except Error (List Entry) :=
  match tree.toEntry with
  | .error error => .error error
  | .ok entry =>
    match entry.asArray with
    | .error error => .error (.reported error.message)
    | .ok items => .ok items

/-- The value that a call tree stands for. -/
def toValue (tree : CallTree) : Except Error Value :=
  match tree.toEntry with
  | .error error => .error error
  | .ok entry => .ok entry.toValue

end ExtendedJson.CallTree
