/-!
Where a library brings a second instance of powers or of equality of byte arrays, definitions go by the
core one, whatever they import.
-/

namespace SlideDeck

instance (priority := high) powNat : Pow Nat Nat := instPowNat

instance (priority := high) powInt : Pow Int Nat := instPowNat

instance (priority := high) decidableEqByteArray : DecidableEq ByteArray := ByteArray.instDecidableEq

attribute [default_instance 20000] powInt
attribute [default_instance 20001] powNat

end SlideDeck
