import ExtendedJson.Calendar.Format
import ExtendedJson.Calendar.Scan
import ExtendedJson.Entry.Payload
import ExtendedJson.Text.Hex

/-!
# Extended entries as objects

An object with a single key that is a marker, and a string or `null` under it, is the wrapper of an
extended entry. `Object.wrapper?` recognises one, `Entry.ofObject` reads one, and
`Entry.extendedText?` gives the text that belongs under the marker. A plain object of that shape
cannot be told from a wrapper, which is why the writer refuses it.
-/

namespace ExtendedJson

/-- The kind and text of a wrapper-shaped object. -/
def Object.wrapper? (o : Object) : Option (Entry.Kind × Option String) :=
  match o.pairs with
  | [(key, .string text)] => (Entry.Kind.ofMarker? key).map fun kind => (kind, some text)
  | [(key, .null)] => (Entry.Kind.ofMarker? key).map fun kind => (kind, none)
  | _ => none

namespace Entry

/-- The text under the marker of an extended entry, absent when the payload is. None for entries of
plain kinds. -/
def extendedText? : Entry → Option (Option (List Char))
  | binary payload => some (payload.map Hex.encode)
  | date payload => some (payload.map Date.text)
  | time payload => some (payload.map TimeOfDay.text)
  | timestamp payload => some (payload.map Timestamp.text)
  | _ => none

/-- The complaint about a text that names nothing of its kind. -/
def undecodable (kind : Kind) (text reason : String) : Error :=
  .reported ("invalid " ++ kind.name ++ " text " ++ Text.quoted text ++ ": " ++ reason)

/-- The payload that a text names. -/
def decodePayload (kind : Kind) (text : String) : Except Error Payload :=
  match kind with
  | .binary =>
    match Hex.decode text with
    | .ok bytes => .ok (.binary bytes)
    | .error fault => .error (undecodable kind text fault.message)
  | .date =>
    match Date.read text.toList with
    | .ok value => .ok (.date value)
    | .error fault => .error (undecodable kind text fault.message)
  | .time =>
    match TimeOfDay.read text.toList with
    | .ok value => .ok (.time value)
    | .error fault => .error (undecodable kind text fault.message)
  | .timestamp =>
    match Timestamp.read text.toList with
    | .ok value => .ok (.timestamp value)
    | .error fault => .error (undecodable kind text fault.message)
  | other => .error (.typeMismatch "extended type" other.name)

/-- The extended entry of a kind whose payload a text names, or that has no payload when there is no
text. -/
def decodeExtended (kind : Kind) : Option String → Except Error Entry
  | none => withKind kind none
  | some text =>
    match decodePayload kind text with
    | .error error => .error error
    | .ok payload => withKind kind (some payload)

/-- The entry that an object is read as: the extended entry it wraps if it is a wrapper, and itself
otherwise. -/
def ofObject (o : Object) : Except Error Entry :=
  match o.wrapper? with
  | some (kind, text) => decodeExtended kind text
  | none => .ok (object o)

end Entry

end ExtendedJson
