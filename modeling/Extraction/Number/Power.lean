/-!
Powers of the two bases in which numbers are written here.
-/

namespace Extraction.Number

def twoPow (n : Nat) : Nat :=
  Nat.pow 2 n

def tenPow (n : Nat) : Nat :=
  Nat.pow 10 n

end Extraction.Number
