/-!
# Powers of small bases

The powers that scales, exponents and word sizes are made of, as plain natural numbers.
-/

namespace ExtendedJson

def pow2 (n : Nat) : Nat := Nat.pow 2 n

def pow5 (n : Nat) : Nat := Nat.pow 5 n

def pow10 (n : Nat) : Nat := Nat.pow 10 n

end ExtendedJson
