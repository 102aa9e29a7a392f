import ExtendedJson.Binary64.Basic

/-!
# Call trees

A serialization frame sees a datum as a sequence of calls: one for each scalar, and for sequences
and maps a call with the announced length around those for the parts. A call tree is that sequence
as data, so it stands for whatever format the frame would write or read.
-/

namespace ExtendedJson

/-- A datum as a serialization frame sees it. The length of a sequence or a map is what was
announced for it, if anything was. -/
inductive CallTree where
  | unit
  | none
  | some (inner : CallTree)
  | newtype (inner : CallTree)
  | boolean (value : Bool)
  | int64 (value : Int64)
  | uint64 (value : UInt64)
  | int128 (value : Int)
  | uint128 (value : Nat)
  | double (value : Binary64)
  | char (value : Char)
  | text (value : String)
  | bytes (value : List UInt8)
  | seq (length : Option Nat) (items : List CallTree)
  | map (length : Option Nat) (pairs : List (CallTree × CallTree))

end ExtendedJson
