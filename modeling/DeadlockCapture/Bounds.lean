/-!
The least and the greatest whole numbers that fit into 32 and 64 bits.
-/

namespace DeadlockCapture

/-- The least number of 32 bits with a sign. -/
def int32Min : Int :=
  -2147483648

/-- The greatest number of 32 bits with a sign. -/
def int32Max : Int :=
  2147483647

/-- The greatest number of 32 bits without a sign. -/
def uint32Max : Nat :=
  4294967295

/-- The least number of 64 bits with a sign. -/
def int64Min : Int :=
  -9223372036854775808

/-- The greatest number of 64 bits with a sign. -/
def int64Max : Int :=
  9223372036854775807

/-- The greatest number of 64 bits without a sign. -/
def uint64Max : Nat :=
  18446744073709551615

end DeadlockCapture
