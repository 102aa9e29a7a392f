import ExtendedJson.Writer.Admission

/-!
# Writers

A writer collects the text of documents. It remembers the nesting level, which a failure leaves
where it was raised to, and nothing resets it between two documents.
-/

namespace ExtendedJson

/-- Text written so far, and the nesting level at its end. -/
structure Writer where
  options : WriterOptions
  level : Nat := 0
  output : List Char := []

namespace Writer

def rules (w : Writer) : WriteRules := ⟨w.options.maxDepth, true⟩

/-- Writes an entry as far as the rules allow. -/
def write (w : Writer) (entry : Entry) : Except Error Unit × Writer :=
  let pieces := entry.layout w.level
  let admission := w.rules.accept w.level pieces
  let written := renderPieces w.options (pieces.take admission.accepted)
  let next := { w with level := admission.level, output := w.output ++ written }
  match admission.error with
  | some error => (.error error, next)
  | none => (.ok (), next)

end Writer

/-- The text of an entry. -/
def Entry.write (entry : Entry) (options : WriterOptions := {}) : Except Error String :=
  match Writer.write { options } entry with
  | (.error error, _) => .error error
  | (.ok (), w) => .ok (String.ofList w.output)

/-- The compact text of an object as it is compared with others: no shape of object is refused, and
brackets may nest as deep as a machine word counts. An object beyond that has no text. -/
def Object.comparisonText (o : Object) : List Char :=
  let pieces := (Entry.object o).layout 0
  match (WriteRules.accept ⟨pow2 64 - 1, false⟩ 0 pieces).error with
  | some _ => []
  | none => renderPieces {} pieces

end ExtendedJson
