/-!
# Members in the order of their insertion

A map from keys to values that remembers the order in which its keys came. Putting a value under a
key that is present replaces the value and leaves the key in its place; a key that was removed comes
last when it comes again.
-/

namespace ExtendedJson

/-- Keys with their values, in the order of insertion. -/
structure Members (α : Type) where
  pairs : List (String × α)
deriving DecidableEq

namespace Members

variable {α : Type}

def empty : Members α := ⟨[]⟩

def length (m : Members α) : Nat := m.pairs.length

def isEmpty (m : Members α) : Bool := m.pairs.isEmpty

def keys (m : Members α) : List String := m.pairs.map Prod.fst

def values (m : Members α) : List α := m.pairs.map Prod.snd

/-- The value under a key. -/
def get? (m : Members α) (key : String) : Option α := m.pairs.lookup key

def contains (m : Members α) (key : String) : Bool := m.pairs.any fun pair => pair.1 == key

/-- Replaces the value under a key, or appends the key when it is absent. -/
def putPairs (key : String) (value : α) : List (String × α) → List (String × α)
  | [] => [(key, value)]
  | pair :: rest =>
    if pair.1 = key then (key, value) :: rest else pair :: putPairs key value rest

/-- The members with a value under a key, in the key's place if it is present and last if not. -/
def put (m : Members α) (key : String) (value : α) : Members α := ⟨putPairs key value m.pairs⟩

/-- The members without a key; the order of the others stays. -/
def erase (m : Members α) (key : String) : Members α := ⟨m.pairs.eraseP fun pair => pair.1 == key⟩

/-- Puts pairs one after the other. -/
def extend (m : Members α) (pairs : List (String × α)) : Members α :=
  pairs.foldl (fun m pair => m.put pair.1 pair.2) m

/-- The members that some pairs make; of pairs with one key the first gives the place and the last
the value. -/
def ofPairs (pairs : List (String × α)) : Members α := empty.extend pairs

/-- All members of both; those of the second win. -/
def append (m n : Members α) : Members α := m.extend n.pairs

end Members

end ExtendedJson
