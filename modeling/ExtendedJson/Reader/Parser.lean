import ExtendedJson.Reader.Value

/-!
# Parsers

A parser is a text on which documents are read. It remembers where reading stopped and how many
brackets are open there, also after a failure, and nothing resets it between two readings. A reading
that succeeds has used up the text.
-/

namespace ExtendedJson

/-- A text with the place that reading has got to. -/
structure Parser where
  options : ParserOptions
  cursor : Cursor
  depth : Nat := 0

namespace Parser

variable {α : Type}

def ofText (text : String) (options : ParserOptions) : Parser :=
  { options, cursor := Cursor.start text }

/-- How many brackets may still be opened. -/
def levels (p : Parser) : Nat := p.options.maxDepth - p.depth

/-- The parser where a failure has left it. -/
def failed (p : Parser) (failure : Failure) : Except Error α × Parser :=
  (.error failure.error, { p with cursor := failure.place, depth := p.depth + failure.opened })

/-- Demands that nothing but layout follows what was read. -/
def finish (p : Parser) : Except Failure (α × Cursor) → Except Error α × Parser
  | .error failure => p.failed failure
  | .ok (value, after) =>
    let last := after.skipLayout
    if last.rest.isEmpty then (.ok value, { p with cursor := last })
    else p.failed (.malformed last .trailing)

/-- Reads the rest of the text as an object. An object is what is asked for, so a wrapper counts as
one here. -/
def readObject (p : Parser) : Except Error Object × Parser :=
  let first := p.cursor.skipLayout
  if first.rest.head? = some '\x7b' then
    p.finish (ExtendedJson.readObject p.options (itemReader? p.options p.levels) first)
  else p.failed (.malformed first .noObject)

/-- Reads the rest of the text as an array. -/
def readArray (p : Parser) : Except Error (List Entry) × Parser :=
  let first := p.cursor.skipLayout
  if first.rest.head? = some '[' then
    p.finish (ExtendedJson.readArray p.options (itemReader? p.options p.levels) first)
  else p.failed (.malformed first .noArray)

/-- Reads the rest of the text as an entry of any kind. -/
def readEntry (p : Parser) : Except Error Entry × Parser :=
  p.finish
    (match readValue p.options p.levels p.cursor with
    | .error failure => .error failure
    | .ok taken => .ok (taken.value, taken.after))

end Parser

end ExtendedJson
