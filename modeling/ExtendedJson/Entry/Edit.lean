import ExtendedJson.Entry.Items
import ExtendedJson.Entry.Number

/-!
# Editing documents

An edit changes the entry at the end of a path. Walking the path or making the edit may fail, and
then there is no new document: the edits are functions from documents to documents, so a failure
leaves the old one. An entry keeps its kind under every edit of it. What an array or an object holds
may be replaced by something of another kind.
-/

namespace ExtendedJson

/-- A step into a document. -/
inductive PathStep where
  | key (key : String)
  | index (index : Nat)
deriving DecidableEq

/-- A change of one entry. -/
inductive Edit where
  | replace (entry : Entry)
  | put (key : String) (entry : Entry)
  | putDouble (key : String) (number : Binary64)
  | removeKey (key : String)
  | append (members : Object)
  | extend (pairs : List (String × Entry))
  | add (entry : Entry)
  | addDouble (number : Binary64)
  | insert (index : Nat) (entry : Entry)
  | set (index : Nat) (entry : Entry)
  | removeIndex (index : Nat)
  | addAll (items : List Entry)

namespace Entry

/-- The entry one step in. -/
def child (entry : Entry) : PathStep → Except Error Entry
  | .key key =>
    match entry.asObject with
    | .error error => .error error
    | .ok members => Object.get members key
  | .index index =>
    match entry.asArray with
    | .error error => .error error
    | .ok items => Items.get items index

/-- The entry with another entry one step in, in the place of what is there. -/
def withChild (entry : Entry) (step : PathStep) (child : Entry) : Entry :=
  match step, entry with
  | .key key, .object members => .object (members.put key child)
  | .index index, .array items => .array (items.set index child)
  | _, other => other

/-- The entry at the end of a path. -/
def descend (entry : Entry) : List PathStep → Except Error Entry
  | [] => .ok entry
  | step :: path =>
    match entry.child step with
    | .error error => .error error
    | .ok inner => inner.descend path

/-- Changes the entry at the end of a path; the change also tells something about what was there. -/
def changeAt {α : Type} (change : Entry → Except Error (α × Entry)) :
    List PathStep → Entry → Except Error (α × Entry)
  | [], entry => change entry
  | step :: path, entry =>
    match entry.child step with
    | .error error => .error error
    | .ok inner =>
      match changeAt change path inner with
      | .error error => .error error
      | .ok (told, changed) => .ok (told, entry.withChild step changed)

/-- Changes the members of an object. -/
def changeObject (entry : Entry) (change : Object → Except Error (Option Entry × Object)) :
    Except Error (Option Entry × Entry) :=
  match entry.asObject with
  | .error error => .error error
  | .ok members =>
    match change members with
    | .error error => .error error
    | .ok (old, members) => .ok (old, .object members)

/-- Changes the items of an array. -/
def changeArray (entry : Entry) (change : List Entry → Except Error (Option Entry × List Entry)) :
    Except Error (Option Entry × Entry) :=
  match entry.asArray with
  | .error error => .error error
  | .ok items =>
    match change items with
    | .error error => .error error
    | .ok (old, items) => .ok (old, .array items)

/-- The entry with its payload replaced by one of the same kind. -/
def replace (entry new : Entry) : Except Error (Option Entry × Entry) :=
  if entry.kind = new.kind then .ok (some entry, new)
  else .error (.kindChange entry.kind.name new.kind.name)

/-- Makes an edit, and gives the entry that had to make room for it, if one had to. -/
def edit (entry : Entry) : Edit → Except Error (Option Entry × Entry)
  | .replace new => entry.replace new
  | .put key new => entry.changeObject fun members => .ok (members.get? key, members.put key new)
  | .putDouble key x =>
    entry.changeObject fun members =>
      match ofBinary64 x with
      | .error error => .error error
      | .ok new => .ok (members.get? key, members.put key new)
  | .removeKey key => entry.changeObject fun members => .ok (members.get? key, members.erase key)
  | .append others => entry.changeObject fun members => .ok (none, members.append others)
  | .extend pairs => entry.changeObject fun members => .ok (none, members.extend pairs)
  | .add item => entry.changeArray fun items => .ok (none, items ++ [item])
  | .addDouble x =>
    entry.changeArray fun items =>
      match ofBinary64 x with
      | .error error => .error error
      | .ok item => .ok (none, items ++ [item])
  | .insert index item =>
    entry.changeArray fun items =>
      match Items.insert items index item with
      | .error error => .error error
      | .ok items => .ok (none, items)
  | .set index item =>
    entry.changeArray fun items =>
      match Items.set items index item with
      | .error error => .error error
      | .ok (old, items) => .ok (some old, items)
  | .removeIndex index =>
    entry.changeArray fun items =>
      match Items.remove items index with
      | .error error => .error error
      | .ok (old, items) => .ok (some old, items)
  | .addAll more => entry.changeArray fun items => .ok (none, items ++ more)

/-- Makes an edit at the end of a path. -/
def editAt (path : List PathStep) (edit : Edit) (entry : Entry) :
    Except Error (Option Entry × Entry) :=
  changeAt (fun target => target.edit edit) path entry

end Entry

end ExtendedJson
