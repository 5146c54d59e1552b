/-!
# Powers of two and of ten

The units in which significands, decimal places and the limits of stored integers are counted.
-/

namespace DiskCatalog

def twoTo (n : Nat) : Nat := Nat.pow 2 n

def tenTo (n : Nat) : Nat := Nat.pow 10 n

end DiskCatalog
