/-!
# Finite binary64 numbers

A finite number of the IEEE 754 binary64 format is a sign and a magnitude:
the 63 bits of exponent and fraction read as one natural number.  Larger
magnitudes are larger numbers, and every finite number is a whole multiple of
2^-1074.  That multiple, an integer, is its exact value here; all comparison
and arithmetic goes through it.
-/

namespace DocumentStore

/-- Magnitudes from here on are the infinity and the undefined numbers. -/
def Binary64.limit : Nat := 0x7FF0000000000000

/-- A finite binary64 number: its sign bit and its other 63 bits. -/
structure Binary64 where
  negative : Bool
  magnitude : Nat
  finite : magnitude < Binary64.limit
deriving DecidableEq

namespace Binary64

/-- One more than the largest fraction: the 53rd bit. -/
def fractionBound : Nat := 0x10000000000000

/-- The bit that a negative sign sets: the 64th bit. -/
def signBit : Nat := 0x8000000000000000

/-- The positive zero. -/
def zero : Binary64 := ⟨false, 0, by decide⟩

/-- The largest finite number. -/
def greatest : Binary64 := ⟨false, limit - 1, by decide⟩

instance : Inhabited Binary64 := ⟨zero⟩

/-- The fraction with its leading one, which subnormal numbers lack. -/
def significand (m : Nat) : Nat :=
  if m < fractionBound then m else fractionBound + m % fractionBound

/-- The absolute value of a magnitude in units of 2^-1074. -/
def unitsOf (m : Nat) : Nat :=
  significand m <<< (m / fractionBound - 1)

/--
The exact value of a sign and a magnitude in units of 2^-1074.  At the limit
itself, the magnitude of the infinities, it is the value that comes after all
finite ones.
-/
def signedUnits
    (negative : Bool)
    (m : Nat) :
    Int :=
  if negative then -(unitsOf m : Int) else unitsOf m

/-- The exact value in units of 2^-1074. -/
def units (x : Binary64) : Int :=
  signedUnits x.negative x.magnitude

/-- How many units make one. -/
def one : Nat := 1 <<< 1074

/-- The 64 bits as a number, sign first. -/
def bits (x : Binary64) : Nat :=
  if x.negative then signBit + x.magnitude else x.magnitude

/-- The same number with the other sign. -/
def neg (x : Binary64) : Binary64 :=
  { x with negative := !x.negative }

/-- Numeric order; the two zeros are equal. -/
def order (x y : Binary64) : Ordering :=
  compare x.units y.units

end Binary64
end DocumentStore
