import ExtendedJson.Entry.Edit

/-!
# Editing in place

A document that is edited where it stands is still there after a failure, in the state that the
failure left it in. Here an edit is a program over the thing that it changes, in the order in which it
looks, gives up and writes; what was written before a failure stays. Objects and arrays let a program
work on one of their entries, and hold in that place whatever it leaves there, also when it fails.

`Entry.editAt` tells the same edits as functions from documents to documents.
-/

namespace ExtendedJson

/-- A program over a thing of type `σ`, which can fail and leaves the thing as it then is. -/
abbrev InPlace (σ α : Type) := ExceptT Error (StateM σ) α

namespace InPlace

variable {σ τ α β : Type}

/-- How a program ends that is run on a thing, and what it leaves of the thing. -/
def runOn (act : InPlace σ α) (thing : σ) : Except Error α × σ := StateT.run (ExceptT.run act) thing

@[simp]
theorem runOn_pure (told : α) (thing : σ) : (pure told : InPlace σ α).runOn thing = (.ok told, thing) :=
  rfl

@[simp]
theorem runOn_throw (error : Error) (thing : σ) :
    (throw error : InPlace σ α).runOn thing = (.error error, thing) := rfl

@[simp]
theorem runOn_get (thing : σ) : (get : InPlace σ σ).runOn thing = (.ok thing, thing) := rfl

@[simp]
theorem runOn_modifyGet (change : σ → α × σ) (thing : σ) :
    (modifyGet change : InPlace σ α).runOn thing = (.ok (change thing).1, (change thing).2) := rfl

@[simp]
theorem runOn_modify (change : σ → σ) (thing : σ) :
    (modify change : InPlace σ Unit).runOn thing = (.ok (), change thing) := rfl

@[simp]
theorem runOn_lift (result : Except Error α) (thing : σ) :
    (liftM result : InPlace σ α).runOn thing = (result, thing) := rfl

/-- What has been written before a failure stays. -/
@[simp]
theorem runOn_bind (act : InPlace σ α) (next : α → InPlace σ β) (thing : σ) :
    (act >>= next).runOn thing =
      match act.runOn thing with
      | (.error error, left) => (.error error, left)
      | (.ok told, left) => (next told).runOn left := by
  rw [runOn, ExceptT.run_bind, StateT.run_bind]
  change (act.runOn thing >>= _ : Id _) = _
  rcases act.runOn thing with ⟨_ | _, _⟩ <;> rfl

@[simp]
theorem runOn_map (tell : α → β) (act : InPlace σ α) (thing : σ) :
    (tell <$> act).runOn thing = ((act.runOn thing).1.map tell, (act.runOn thing).2) := by
  rw [map_eq_pure_bind, runOn_bind]
  rcases act.runOn thing with ⟨_ | _, _⟩ <;> rfl

/-- A program that works on a part of a thing, if the thing has that part. -/
def onPart (part : σ → Except Error τ) (write : τ → σ → σ) (act : InPlace τ α) : InPlace σ α :=
  ExceptT.mk fun thing =>
    match part thing with
    | .error error => (.error error, thing)
    | .ok inner =>
      let (result, left) := act.runOn inner
      (result, write left thing)

@[simp]
theorem runOn_onPart (part : σ → Except Error τ) (write : τ → σ → σ) (act : InPlace τ α)
    (thing : σ) :
    (onPart part write act).runOn thing =
      match part thing with
      | .error error => (.error error, thing)
      | .ok inner => ((act.runOn inner).1, write (act.runOn inner).2 thing) := by
  rw [onPart, runOn]
  change (match part thing with | .error _ => _ | .ok _ => _) = _
  cases part thing <;> rfl

def onObject (act : InPlace Object α) : InPlace Entry α :=
  onPart Entry.asObject (fun members _ => .object members) act

def onArray (act : InPlace (List Entry) α) : InPlace Entry α :=
  onPart Entry.asArray (fun items _ => .array items) act

def onMember (key : String) (act : InPlace Entry α) : InPlace Object α :=
  onPart (fun members => Object.get members key) (fun entry members => members.put key entry) act

def onItem (index : Nat) (act : InPlace Entry α) : InPlace (List Entry) α :=
  onPart (fun items => Items.get items index) (fun entry items => items.set index entry) act

/-- Puts a new thing in the place of the old one. -/
def swap (new : σ) : InPlace σ σ := modifyGet fun old => (old, new)

def replace (new : Entry) : InPlace Entry Entry := do
  let old ← get
  if old.kind = new.kind then swap new
  else throw (.kindChange old.kind.name new.kind.name)

def put (key : String) (entry : Entry) : InPlace Object (Option Entry) :=
  modifyGet fun members => (members.get? key, members.put key entry)

def putDouble (key : String) (x : Binary64) : InPlace Object (Option Entry) := do
  let entry ← Entry.ofBinary64 x
  put key entry

def removeKey (key : String) : InPlace Object (Option Entry) :=
  modifyGet fun members => (members.get? key, members.erase key)

def extend (pairs : List (String × Entry)) : InPlace Object Unit :=
  pairs.forM fun pair => discard (put pair.1 pair.2)

def add (item : Entry) : InPlace (List Entry) Unit := modify fun items => items ++ [item]

def addDouble (x : Binary64) : InPlace (List Entry) Unit := do
  let item ← Entry.ofBinary64 x
  add item

def insert (index : Nat) (item : Entry) : InPlace (List Entry) Unit := do
  let items ← get
  if items.length < index then throw (Items.outOfBounds items index)
  modify fun items => items.insertIdx index item

def setItem (index : Nat) (item : Entry) : InPlace (List Entry) Entry := onItem index (swap item)

def removeIndex (index : Nat) : InPlace (List Entry) Entry := do
  let old ← Items.get (← get) index
  modify fun items => items.eraseIdx index
  return old

def addAll (items : List Entry) : InPlace (List Entry) Unit := items.forM add

/-- A program that makes no entry give way. -/
def tellNothing (act : InPlace σ Unit) : InPlace σ (Option Entry) := (fun _ => none) <$> act

/-- Makes an edit, and gives the entry that had to make room for it, if one had to. -/
def edit : Edit → InPlace Entry (Option Entry)
  | .replace new => some <$> replace new
  | .put key new => onObject (put key new)
  | .putDouble key x => onObject (putDouble key x)
  | .removeKey key => onObject (removeKey key)
  | .append others => onObject (tellNothing (extend others.pairs))
  | .extend pairs => onObject (tellNothing (extend pairs))
  | .add item => onArray (tellNothing (add item))
  | .addDouble x => onArray (tellNothing (addDouble x))
  | .insert index item => onArray (tellNothing (insert index item))
  | .set index item => onArray (some <$> setItem index item)
  | .removeIndex index => onArray (some <$> removeIndex index)
  | .addAll items => onArray (tellNothing (addAll items))

/-- Works on the entry at the end of a path. -/
def onPath : List PathStep → InPlace Entry α → InPlace Entry α
  | [], act => act
  | .key key :: path, act => onObject (onMember key (onPath path act))
  | .index index :: path, act => onArray (onItem index (onPath path act))

/-- Makes an edit at the end of a path. -/
def editAt (path : List PathStep) (change : Edit) : InPlace Entry (Option Entry) :=
  onPath path (edit change)

end InPlace

/-- The document that a run of edits leaves, of which any may fail. -/
def Entry.editedInPlace (document : Entry) (edits : List (List PathStep × Edit)) : Entry :=
  edits.foldl (fun document (path, change) => ((InPlace.editAt path change).runOn document).2)
    document

end ExtendedJson
