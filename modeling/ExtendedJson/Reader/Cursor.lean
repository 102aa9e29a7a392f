import ExtendedJson.Error
import ExtendedJson.Text.Blank

/-!
# The place in a text

A cursor is what is left of a text together with the place where that begins: how many bytes lie
before it, its line, and its column, the last two counted from one. A cursor moves only by whole
characters and only forward.

What a reader takes off a text carries the proof that something was taken, so that reading in a loop
ends by the length of what is left.
-/

namespace ExtendedJson

/-- A place in a text. -/
structure Cursor where
  rest : List Char
  offset : Nat := 0
  line : Nat := 1
  column : Nat := 1
deriving DecidableEq

namespace Cursor

def start (text : String) : Cursor := { rest := text.toList }

/-- One character on; at the end the cursor stays. -/
def step (c : Cursor) : Cursor :=
  match c.rest with
  | [] => c
  | first :: rest =>
    if first = '\n' then ⟨rest, c.offset + first.utf8Size, c.line + 1, 1⟩
    else ⟨rest, c.offset + first.utf8Size, c.line, c.column + 1⟩

/-- Some characters on. -/
def skip : Nat → Cursor → Cursor
  | 0, c => c
  | n + 1, c => skip n c.step

/-- Past all layout characters. -/
def skipLayout (c : Cursor) : Cursor := c.skip (c.rest.takeWhile Text.isLayout).length

@[simp]
theorem rest_step (c : Cursor) : c.step.rest = c.rest.drop 1 := by
  unfold step
  split
  · simp [*]
  · split <;> simp [*]

@[simp]
theorem rest_skip (n : Nat) (c : Cursor) : (c.skip n).rest = c.rest.drop n := by
  induction n generalizing c with
  | zero => rfl
  | succ n ih => rw [skip, ih, rest_step, List.drop_drop, Nat.add_comm]

theorem length_step_le (c : Cursor) : c.step.rest.length ≤ c.rest.length := by
  simp

theorem length_step_lt {c : Cursor} (h : c.rest ≠ []) : c.step.rest.length < c.rest.length := by
  have := List.length_pos_iff.mpr h
  simp
  omega

theorem length_skipLayout_le (c : Cursor) : c.skipLayout.rest.length ≤ c.rest.length := by
  simp [skipLayout]

end Cursor

/-- Why reading ended, the place where it ended, and how many brackets had been opened by then and
not been closed. -/
structure Failure where
  error : Error
  place : Cursor
  opened : Nat
deriving DecidableEq

namespace Failure

/-- A fault that was noticed at a place. -/
def malformed (c : Cursor) (fault : Fault) : Failure := ⟨.malformed c.line c.column fault, c, 0⟩

/-- The same failure seen from outside of a bracket that was open when it happened. -/
def inside (f : Failure) : Failure := { f with opened := f.opened + 1 }

end Failure

/-- Something read from a place on, and the place behind it. -/
structure Taken (before : Cursor) (α : Type) where
  value : α
  after : Cursor
  shorter : after.rest.length < before.rest.length

/-- Reads something from a place on, or says why that cannot be done. -/
abbrev Reader (α : Type) := (c : Cursor) → Except Failure (Taken c α)

namespace Cursor

/-- Goes past what a scan has taken, or to where it gave up. -/
def follow {α : Type} (c : Cursor) : Scan α → Except Failure (α × Cursor)
  | .error (fault, used) => .error (.malformed (c.skip used) fault)
  | .ok (value, used) => .ok (value, c.skip used)

theorem length_follow_le {α : Type} {c after : Cursor} {s : Scan α} {value : α}
    (h : c.follow s = .ok (value, after)) : after.rest.length ≤ c.rest.length := by
  unfold follow at h
  split at h
  · simp at h
  · injection h with h
    injection h with _ h
    subst h
    simp

end Cursor

end ExtendedJson
