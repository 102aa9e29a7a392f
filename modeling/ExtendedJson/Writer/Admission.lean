import ExtendedJson.Writer.Layout

/-!
# How far a writer gets

The writer takes the pieces of a layout one by one and stops at the first opening bracket that it
must not write: that of an object which would be read back as something else, or one that nests too
deep. Of the two complaints about one bracket the first is made. What was taken before stays
written, and the brackets that are open there stay open.
-/

namespace ExtendedJson

/-- What a writer insists on. -/
structure WriteRules where
  maxDepth : Nat
  /-- Whether objects that would be read back as extended entries are refused. -/
  guarded : Bool
deriving DecidableEq

/-- How many pieces were taken, the nesting level behind them, and why no more were taken, if any
were left. -/
structure Admission where
  accepted : Nat
  level : Nat
  error : Option Error
deriving DecidableEq

namespace WriteRules

/-- The complaint about an opening bracket, if there is one. -/
def refusal? (rules : WriteRules) (level : Nat) (marker : Option String) : Option Error :=
  match rules.guarded, marker with
  | true, some marker => some (.ambiguousObject marker)
  | _, _ => if rules.maxDepth ≤ level then some (.depthLimit rules.maxDepth) else none

/-- Takes pieces from a nesting level on; `accepted` were taken before. -/
def acceptFrom (rules : WriteRules) (accepted level : Nat) : List Piece → Admission
  | [] => ⟨accepted, level, none⟩
  | .opening _ marker :: rest =>
    match rules.refusal? level marker with
    | some error => ⟨accepted, level, some error⟩
    | none => acceptFrom rules (accepted + 1) (level + 1) rest
  | .closing _ :: rest => acceptFrom rules (accepted + 1) (level - 1) rest
  | .lexeme _ :: rest => acceptFrom rules (accepted + 1) level rest
  | .lineBreak _ :: rest => acceptFrom rules (accepted + 1) level rest

/-- Takes pieces from a nesting level on. -/
def accept (rules : WriteRules) (level : Nat) (pieces : List Piece) : Admission :=
  rules.acceptFrom 0 level pieces

end WriteRules

end ExtendedJson
