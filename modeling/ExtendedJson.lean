import ExtendedJson.Decimal.Text
import ExtendedJson.Decimal.Literal
import ExtendedJson.Text.JsonString
import ExtendedJson.Binary64.OfDecimal
import ExtendedJson.Text.Blank
import ExtendedJson.Text.Hex
import ExtendedJson.Text.Utf8
import ExtendedJson.Calendar.Format
import ExtendedJson.Calendar.Scan
import ExtendedJson.Entry.Basic
import ExtendedJson.Entry.Extended
import ExtendedJson.Options
import ExtendedJson.Reader.Cursor
import ExtendedJson.Reader.Value
import ExtendedJson.Reader.Parser
import ExtendedJson.Document
import ExtendedJson.Bridge
import ExtendedJson.Entry.Edit
import ExtendedJson.Entry.Equality
import ExtendedJson.Value.Hash
import ExtendedJson.Value.Native
import ExtendedJson.Value.Text
import ExtendedJson.CallTree.Encode
import ExtendedJson.CallTree.Decode
import ExtendedJson.Proofs.Grammar.Basic
import ExtendedJson.Proofs.Grammar.Strings
import ExtendedJson.Proofs.Grammar.Numbers
import ExtendedJson.Proofs.Grammar.Parts
import ExtendedJson.Proofs.Grammar.Reading
import ExtendedJson.Proofs.Grammar.Documents
import ExtendedJson.Proofs.Admission
import ExtendedJson.Proofs.PayloadTexts
import ExtendedJson.Proofs.Grammar.Writing
import ExtendedJson.Proofs.RoundTrip
import ExtendedJson.Proofs.DecimalOrder
import ExtendedJson.Proofs.Grammar.Meanings
import ExtendedJson.Proofs.WordProducts
import ExtendedJson.Proofs.Grammar.Unspelled
import ExtendedJson.Proofs.Rereading
import ExtendedJson.Proofs.DoubleOrder
import ExtendedJson.Proofs.NumberOrder
import ExtendedJson.Proofs.ValueOrder
import ExtendedJson.Proofs.NumberLine
import ExtendedJson.Proofs.Hashing
import ExtendedJson.Proofs.ValueStorage
import ExtendedJson.Proofs.RowStorage
import ExtendedJson.Proofs.Grammar.Refusals
import ExtendedJson.Proofs.TreeShape
import ExtendedJson.Proofs.Recognition
import ExtendedJson.Proofs.DepthLimits
import ExtendedJson.Proofs.Integers
import ExtendedJson.Proofs.Serialization
import ExtendedJson.Proofs.TreeTexts
import ExtendedJson.Proofs.ObjectEquality
import ExtendedJson.Proofs.ReadableLayout
import ExtendedJson.Proofs.WriterRuns
import ExtendedJson.Proofs.FirstOffence
import ExtendedJson.Proofs.CursorMoves
import ExtendedJson.Proofs.Blame
import ExtendedJson.Proofs.ParserRuns
import ExtendedJson.Proofs.RaisedLimits
import ExtendedJson.Proofs.ParserFailures
import ExtendedJson.Proofs.Narrowing
import ExtendedJson.Proofs.NarrowingAlike
import ExtendedJson.Proofs.CanonicalTexts
import ExtendedJson.Proofs.MemberHistory
import ExtendedJson.Entry.InPlace
import ExtendedJson.Decimal.Exponent
import ExtendedJson.Proofs.ObjectMerging
import ExtendedJson.Proofs.EditsInPlace
import ExtendedJson.Proofs.EditLocality
import ExtendedJson.Proofs.Grammar.Numerals
import ExtendedJson.Proofs.ExponentLimits
import ExtendedJson.Proofs.ArrayTexts
