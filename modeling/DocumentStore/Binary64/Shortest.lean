import DocumentStore.Binary64.Rounding

/-!
# The fewest digits that read back

The decimal text of a number uses the fewest digits from which the number is
read back, and of the decimals with that many digits the one nearest to it.
For each digit count in turn the two neighbours of the exact value on that
decimal grid are tried; seventeen digits always suffice.  Of two decimals that
are equally near the one with an even last digit is taken.
-/

namespace DocumentStore
namespace Binary64

/-- A decimal: a whole number times a power of ten. -/
structure Decimal where
  digits : Nat
  exponent : Int
deriving DecidableEq, Repr

/-- Whether a decimal is read back as the number with a given magnitude. -/
def Decimal.readsAs
    (d : Decimal)
    (m : Nat) :
    Bool :=
  (ofDecimal? false d.digits d.exponent).map Binary64.magnitude = some m

/-- Move trailing zeros of the digits into the exponent. -/
def Decimal.strip :
    (fuel : Nat) → Decimal → Decimal
  | 0, d => d
  | fuel + 1, d =>
      if d.digits ≠ 0 ∧ d.digits % 10 = 0 then
        strip fuel ⟨d.digits / 10, d.exponent + 1⟩
      else
        d

/--
The decimal places of a unit: every number is a whole multiple of 10^-1074,
since a unit is 5^1074 of them.
-/
def places : Nat := 1074

/--
The neighbours, on the grid of `count` digits, of a value of `length` digits
counted in the last decimal place.  The nearer one comes first, and of two that
are equally near the even one.
-/
def gridNeighbours
    (value length count : Nat) :
    List Decimal :=
  let step := Nat.pow 10 (length - count)
  let below := value / step
  let rest := 2 * (value % step)
  let exponent : Int := (length - count : Nat) - (places : Int)
  if rest < step ∨ (rest = step ∧ below % 2 = 0) then
    [⟨below, exponent⟩, ⟨below + 1, exponent⟩]
  else
    [⟨below + 1, exponent⟩, ⟨below, exponent⟩]

/-- The shortest decimal that reads back as a magnitude other than zero. -/
def shortest (m : Nat) : Decimal :=
  let value := unitsOf m * Nat.pow 5 places
  let length := (Nat.toDigits 10 value).length
  let found :=
    (List.range 17).findSome? fun n =>
      (gridNeighbours value length (n + 1)).find? (·.readsAs m)
  Decimal.strip 20 (found.getD ⟨value, -(places : Int)⟩)

end Binary64
end DocumentStore
