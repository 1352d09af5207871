import ClassAbi.Text.Basic

/-!
# The hash of a name

The runtime finds names by a 16-bit hash of their bytes: the polynomial in 31 whose coefficients are the bytes, read as
signed numbers.
-/

namespace ClassAbi

/-- One step of the hash: a 32-bit accumulator takes the next byte. -/
def hashStep (h : UInt32) (b : UInt8) : UInt32 := 31 * h + b.toInt8.toInt32.toUInt32

def nameHash (t : Text) : UInt16 := (t.foldl hashStep 0).toUInt16

end ClassAbi
