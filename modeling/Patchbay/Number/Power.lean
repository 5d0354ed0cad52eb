/-!
Powers of the two bases that numbers are written in.
-/

namespace Patchbay.Number

def twoPow (k : Nat) : Nat := Nat.pow 2 k

def tenPow (k : Nat) : Nat := Nat.pow 10 k

end Patchbay.Number
