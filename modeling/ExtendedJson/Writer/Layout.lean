import ExtendedJson.Decimal.Text
import ExtendedJson.Entry.Extended
import ExtendedJson.Options
import ExtendedJson.Text.JsonString

/-!
# The layout of a document

Writing goes by way of a list of pieces: brackets, the text between them, and the places where a
line may be broken, each with the nesting level at which it stands. A document has one layout. The
style only decides what a line break is rendered as, and the limits of the writer only decide how
far along the list it gets.

Empty arrays and objects and the wrappers of extended entries are single lexemes: nothing is broken
inside of them and they open no level. An opening bracket records the marker when what it opens is
an object that would be read back as an extended entry.
-/

namespace ExtendedJson

/-- A part of a document's text. -/
inductive Piece where
  | lexeme (text : List Char)
  | opening (bracket : Char) (marker : Option String)
  | closing (bracket : Char)
  | lineBreak (level : Nat)
deriving DecidableEq

namespace Piece

def comma : Piece := .lexeme [',']

/-- The text of a piece. Only readable text has line breaks, each with the indent of its level. -/
def render (options : WriterOptions) : Piece → List Char
  | lexeme text => text
  | opening bracket _ => [bracket]
  | closing bracket => [bracket]
  | lineBreak level =>
    match options.style with
    | .compact => []
    | .readable => '\n' :: List.replicate (level * options.indent) ' '

end Piece

/-- The text of some pieces. -/
def renderPieces (options : WriterOptions) (pieces : List Piece) : List Char :=
  pieces.flatMap (Piece.render options)

namespace Entry

/-- The wrapper of an extended entry, with `null` for an absent payload. -/
def wrapperText (marker : String) (text : Option (List Char)) : List Char :=
  '\x7b' :: (JsonString.quote marker.toList ++ ':' ::
    ((match text with
      | some text => JsonString.quote text
      | none => "null".toList) ++ ['\x7d']))

/-- The lexeme of an entry of an extended kind. -/
def wrapperPieces (kind : Kind) (text : Option (List Char)) : List Piece :=
  [.lexeme (wrapperText (kind.marker?.getD "") text)]

mutual

/-- The pieces of an entry that begins at a nesting level. -/
def layout (level : Nat) : Entry → List Piece
  | .null => [.lexeme "null".toList]
  | .boolean value => [.lexeme (if value then "true".toList else "false".toList)]
  | .number value => [.lexeme value.plain]
  | .string value => [.lexeme (JsonString.quote value.toList)]
  | .array items =>
    if items.isEmpty then [.lexeme ['[', ']']]
    else
      .opening '[' none :: (layoutItems (level + 1) [] items ++ [.lineBreak level, .closing ']'])
  | .object ⟨pairs⟩ =>
    if pairs.isEmpty then [.lexeme ['\x7b', '\x7d']]
    else
      .opening '\x7b' ((Object.wrapper? ⟨pairs⟩).bind fun wrapper => wrapper.1.marker?) ::
        (layoutMembers (level + 1) [] pairs ++ [.lineBreak level, .closing '\x7d'])
  | .binary payload => wrapperPieces .binary (payload.map Hex.encode)
  | .date payload => wrapperPieces .date (payload.map Date.text)
  | .time payload => wrapperPieces .time (payload.map TimeOfDay.text)
  | .timestamp payload => wrapperPieces .timestamp (payload.map Timestamp.text)

/-- Items, each on a line of its own; `separator` stands in front of the first. -/
def layoutItems (level : Nat) (separator : List Piece) : List Entry → List Piece
  | [] => []
  | item :: items =>
    separator ++ .lineBreak level :: (layout level item ++ layoutItems level [.comma] items)

/-- Members, each on a line of its own with its key in front; `separator` stands in front of the
first. -/
def layoutMembers (level : Nat) (separator : List Piece) : List (String × Entry) → List Piece
  | [] => []
  | (key, value) :: pairs =>
    separator ++ .lineBreak level :: .lexeme (JsonString.quote key.toList ++ [':']) ::
      (layout level value ++ layoutMembers level [.comma] pairs)

end

end Entry

end ExtendedJson
