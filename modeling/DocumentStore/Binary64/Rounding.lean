import DocumentStore.Binary64.Basic

/-!
# Rounding to binary64

One function rounds a nonnegative quotient of natural numbers, measured in
units of 2^-1074, to the nearest magnitude; a tie goes to the even one.  The
conversion of integers, the reading of decimals and the arithmetic operations
are exact values sent through it, so each is rounded once.
-/

namespace DocumentStore
namespace Binary64

/-- The natural number nearest to a quotient; a tie goes to the even one. -/
def roundQuotient (num den : Nat) : Nat :=
  let whole := num / den
  let rest := 2 * (num % den)
  if rest < den then whole
  else if den < rest then whole + 1
  else whole + whole % 2

/-- The magnitude nearest to a quotient of units.  It may reach the limit. -/
def nearestMagnitude (num den : Nat) : Nat :=
  let shift := (num / den).log2 - 52
  shift * fractionBound + roundQuotient num (den <<< shift)

/-- A number of given sign and magnitude, if it is finite. -/
def ofMagnitude?
    (negative : Bool)
    (m : Nat) :
    Option Binary64 :=
  if h : m < limit then some ⟨negative, m, h⟩ else none

/-- The number nearest to a quotient of units; none if it is out of range. -/
def ofUnits?
    (negative : Bool)
    (num den : Nat) :
    Option Binary64 :=
  ofMagnitude? negative (nearestMagnitude num den)

/-- The number nearest to an integer.  One out of range gives the largest number. -/
def ofInt (i : Int) : Binary64 :=
  (ofUnits? (decide (i < 0)) (i.natAbs * one) 1).getD
    { greatest with negative := decide (i < 0) }

/-- The number nearest to `digits` times a power of ten; none if it is out of range. -/
def ofDecimal?
    (negative : Bool)
    (digits : Nat)
    (exponent : Int) :
    Option Binary64 :=
  if digits = 0 then some { zero with negative }
  else if 400 < exponent then none
  else if exponent + digits.log2 < -400 then some { zero with negative }
  else if 0 ≤ exponent then
    ofUnits? negative (digits * Nat.pow 10 exponent.toNat * one) 1
  else
    ofUnits? negative (digits * one) (Nat.pow 10 (-exponent).toNat)

/-- The sum, rounded once.  A zero sum is negative only when both terms are. -/
def add? (x y : Binary64) : Option Binary64 :=
  let sum := x.units + y.units
  if sum = 0 then
    some { zero with negative := x.negative && y.negative }
  else
    ofUnits? (decide (sum < 0)) sum.natAbs 1

/-- The product, rounded once. -/
def mul? (x y : Binary64) : Option Binary64 :=
  ofUnits? (x.negative != y.negative)
    (unitsOf x.magnitude * unitsOf y.magnitude) one

/-- The quotient by a number other than zero, rounded once. -/
def div? (x y : Binary64) : Option Binary64 :=
  ofUnits? (x.negative != y.negative)
    (unitsOf x.magnitude * one) (unitsOf y.magnitude)

/-- The number nearest to a power of ten. -/
def powerOfTen (n : Nat) : Binary64 :=
  (ofDecimal? false 1 n).getD greatest

/--
A whole number scaled by a power of ten in binary64 arithmetic: the whole
number, the power and their product or quotient are rounded one after the
other.  Powers beyond 10^308 are applied in steps.  None if the result is out
of range.
-/
def scaled?
    (whole : Nat)
    (exponent : Int) :
    Option Binary64 :=
  let start := ofInt whole
  if start.magnitude = 0 then some start
  else if 308 < exponent then none
  else if 0 ≤ exponent then mul? start (powerOfTen exponent.toNat)
  else if -308 ≤ exponent then div? start (powerOfTen (-exponent).toNat)
  else
    match div? start (powerOfTen 308) with
    | none => none
    | some small =>
        if -616 ≤ exponent then
          div? small (powerOfTen (-exponent - 308).toNat)
        else
          some zero

end Binary64
end DocumentStore
