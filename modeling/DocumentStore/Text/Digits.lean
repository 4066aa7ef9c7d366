/-!
# Digits

Numbers in lower-case hexadecimal, the value of a digit, the number that a run
of digits stands for, and reading such a run at the start of a text.
-/

namespace DocumentStore
namespace Text

/-- The sixteen lower-case digits in order of their value. -/
def hexDigits : List Char :=
  ['0', '1', '2', '3', '4', '5', '6', '7', '8', '9', 'a', 'b', 'c', 'd', 'e', 'f']

/-- The digit of a value below sixteen. -/
def hexDigit (n : Nat) : Char :=
  hexDigits.getD (n % 16) '0'

/-- The lowest `width` hexadecimal digits of a number, highest first. -/
def hexPadded :
    (width n : Nat) → List Char
  | 0, _ => []
  | width + 1, n => hexPadded width (n / 16) ++ [hexDigit n]

/-- The value of a digit of either case. -/
def hexValue? (c : Char) : Option Nat :=
  if '0' ≤ c ∧ c ≤ '9' then some (c.toNat - '0'.toNat)
  else if 'a' ≤ c ∧ c ≤ 'f' then some (c.toNat - 'a'.toNat + 10)
  else if 'A' ≤ c ∧ c ≤ 'F' then some (c.toNat - 'A'.toNat + 10)
  else none

/-- The number that digits of a base up to sixteen stand for. -/
def digitsValue
    (base : Nat)
    (digits : List Char) :
    Nat :=
  digits.foldl (fun n c => n * base + (hexValue? c).getD 0) 0

/-- A run of exactly `width` decimal digits. -/
def digits?
    (width : Nat)
    (cs : List Char) :
    Option (Nat × List Char) :=
  let run := cs.take width
  if run.length = width ∧ run.all Char.isDigit then
    some (digitsValue 10 run, cs.drop width)
  else
    none

/-- One expected character. -/
def mark?
    (c : Char) :
    List Char → Option (List Char)
  | d :: rest => if d = c then some rest else none
  | [] => none

end Text
end DocumentStore
