import ExtendedJson.Reader.Parser
import ExtendedJson.Text.Utf8
import ExtendedJson.Writer.Writer

/-!
# Documents as texts, bytes and streams

Reading and writing whole documents, each with a parser or a writer of its own. A text that was to
be an object and cannot be read has the cause wrapped into an error that says so; the other readers
give the cause itself.
-/

namespace ExtendedJson

/-- The entry that a text spells. -/
def parseEntry (text : String) (options : ParserOptions := {}) : Except Error Entry :=
  (Parser.ofText text options).readEntry.1

/-- The array that a text spells. -/
def parseArray (text : String) (options : ParserOptions := {}) : Except Error (List Entry) :=
  (Parser.ofText text options).readArray.1

/-- The object that a text spells. At the top a wrapper is an object like any other. -/
def parseObject (text : String) (options : ParserOptions := {}) : Except Error Object :=
  match (Parser.ofText text options).readObject.1 with
  | .ok members => .ok members
  | .error cause => .error (.invalidObject cause)

/-- The object that some bytes spell. -/
def parseObjectBytes (bytes : List UInt8) : Except Error Object :=
  match Utf8.decode bytes with
  | .ok text => parseObject text
  | .error fault => .error (.reported fault.message)

/-- A stream that is read to its end: its bytes, and what went wrong behind them, if anything. -/
structure Source where
  bytes : List UInt8
  failure : Option String := none

/-- The object that a stream spells. A stream that breaks is the first complaint, bytes that are no
text the second. -/
def parseObjectStream (source : Source) : Except Error Object :=
  match source.failure with
  | some message => .error (.stream message)
  | none =>
    match Utf8.decode source.bytes with
    | .ok text => parseObject text
    | .error _ => .error (.stream "stream did not contain valid UTF-8")

/-- Where bytes are written to: as many as it may hold, if that is bounded, and those it holds. -/
structure Sink where
  capacity : Option Nat := none
  bytes : List UInt8 := []

namespace Sink

/-- Takes bytes as long as there is room. -/
def put (sink : Sink) (bytes : List UInt8) : Except Error Unit × Sink :=
  match sink.capacity with
  | none => (.ok (), { sink with bytes := sink.bytes ++ bytes })
  | some capacity =>
    let room := capacity - sink.bytes.length
    let next := { sink with bytes := sink.bytes ++ bytes.take room }
    if bytes.length ≤ room then (.ok (), next)
    else (.error (.stream "failed to write whole buffer"), next)

/-- Writes a document. Nothing reaches the sink unless the document can be written as a whole. -/
def putEntry (sink : Sink) (entry : Entry) (options : WriterOptions := {}) :
    Except Error Unit × Sink :=
  match entry.write options with
  | .error error => (.error error, sink)
  | .ok text => sink.put (text.toList.flatMap String.utf8EncodeChar)

end Sink

end ExtendedJson
