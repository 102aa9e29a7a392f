/-!
# Options

Limits of the reader, and limit and style of the writer.
-/

namespace ExtendedJson

/-- What the reader accepts: how deep brackets may nest and how large an exponent may be. -/
structure ParserOptions where
  maxDepth : Nat := 128
  maxExponent : Nat := 1024
deriving DecidableEq

/-- Everything on one line, or a line for each member and item. -/
inductive Style where
  | compact
  | readable
deriving DecidableEq

/-- How the writer lays a document out and how deep it may nest. The indent is per level and counts
only in the readable style. -/
structure WriterOptions where
  style : Style := .compact
  indent : Nat := 3
  maxDepth : Nat := 512
deriving DecidableEq

end ExtendedJson
