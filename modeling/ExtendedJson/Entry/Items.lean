import ExtendedJson.Entry.Basic

/-!
# Items of an array

Access by index. An index that points at nothing is an error and changes nothing; only an insertion
may point right behind the last item.
-/

namespace ExtendedJson.Items

/-- The complaint about an index. -/
def outOfBounds (items : List Entry) (index : Nat) : Error := .indexOutOfBounds index items.length

def get (items : List Entry) (index : Nat) : Except Error Entry :=
  match items[index]? with
  | some item => .ok item
  | none => .error (outOfBounds items index)

/-- Puts an item in front of the one at an index. -/
def insert (items : List Entry) (index : Nat) (item : Entry) : Except Error (List Entry) :=
  if index ≤ items.length then .ok (items.insertIdx index item)
  else .error (outOfBounds items index)

/-- Replaces an item, and gives the item that was there. -/
def set (items : List Entry) (index : Nat) (item : Entry) : Except Error (Entry × List Entry) :=
  match items[index]? with
  | some old => .ok (old, items.set index item)
  | none => .error (outOfBounds items index)

/-- Takes an item out, and gives it. -/
def remove (items : List Entry) (index : Nat) : Except Error (Entry × List Entry) :=
  match items[index]? with
  | some old => .ok (old, items.eraseIdx index)
  | none => .error (outOfBounds items index)

end ExtendedJson.Items
