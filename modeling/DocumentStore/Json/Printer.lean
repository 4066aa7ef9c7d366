import DocumentStore.Binary64.Shortest
import DocumentStore.Json.Basic
import DocumentStore.Text.Digits

/-!
# Compact JSON text

A value is written without blanks, its members in the order in which the
object lists them.  Characters outside ASCII stand for themselves; quotes,
backslashes and control characters are escaped.  An integer is written in
decimal.  A binary64 number is written with the fewest digits that read back
and always shows that it is no integer: it has a point or an exponent, and an
exponent always has a sign.
-/

namespace DocumentStore
namespace Json

/-- The escape of a character that may not stand for itself in a string. -/
def escape? (c : Char) : Option (List Char) :=
  if c = '"' then some ['\\', '"']
  else if c = '\\' then some ['\\', '\\']
  else if c = '\x08' then some ['\\', 'b']
  else if c = '\t' then some ['\\', 't']
  else if c = '\n' then some ['\\', 'n']
  else if c = '\x0c' then some ['\\', 'f']
  else if c = '\r' then some ['\\', 'r']
  else if c.toNat < 0x20 then some ('\\' :: 'u' :: Text.hexPadded 4 c.toNat)
  else none

/-- A character as it stands inside a string. -/
def renderChar (c : Char) : List Char :=
  (escape? c).getD [c]

/-- A string in quotes. -/
def renderString (s : String) : List Char :=
  '"' :: (s.toList.flatMap renderChar ++ ['"'])

/-- A natural number in decimal. -/
def renderNat (n : Nat) : List Char :=
  Nat.toDigits 10 n

/-- An integer in decimal. -/
def renderInt (i : Int) : List Char :=
  if i < 0 then '-' :: renderNat i.natAbs else renderNat i.natAbs

/-- An exponent, with its sign. -/
def renderExponent (e : Int) : List Char :=
  if e < 0 then 'e' :: renderInt e else 'e' :: '+' :: renderInt e

/--
The text of a decimal.  Let `point` be the number of digits before the decimal
point when the decimal is written out.  It is written out when
`-5 < point ≤ 16`, and otherwise with one digit before the point and an
exponent.
-/
def renderDecimal (d : Binary64.Decimal) : List Char :=
  let digits := renderNat d.digits
  let point : Int := digits.length + d.exponent
  if 0 ≤ d.exponent ∧ point ≤ 16 then
    digits ++ List.replicate d.exponent.toNat '0' ++ ['.', '0']
  else if 0 < point ∧ point ≤ 16 then
    digits.take point.toNat ++ '.' :: digits.drop point.toNat
  else if -5 < point ∧ point ≤ 0 then
    '0' :: '.' :: (List.replicate (-point).toNat '0' ++ digits)
  else
    let mantissa :=
      match digits with
      | [d] => [d]
      | d :: rest => d :: '.' :: rest
      | [] => []
    mantissa ++ renderExponent (point - 1)

/-- The text of a binary64 number. -/
def renderBinary64 (x : Binary64) : List Char :=
  let body :=
    if x.magnitude = 0 then ['0', '.', '0']
    else renderDecimal (Binary64.shortest x.magnitude)
  if x.negative then '-' :: body else body

/-- The text of a number. -/
def renderNumber : Number → List Char
  | .integer i => renderInt i
  | .float x => renderBinary64 x

mutual

/-- The compact text of a value. -/
def render : Json → List Char
  | null => ['n', 'u', 'l', 'l']
  | bool true => ['t', 'r', 'u', 'e']
  | bool false => ['f', 'a', 'l', 's', 'e']
  | number n => renderNumber n
  | string s => renderString s
  | array [] => ['[', ']']
  | array (v :: rest) => '[' :: (render v ++ renderItems rest)
  | object [] => ['\x7b', '\x7d']
  | object ((k, v) :: rest) =>
      '\x7b' :: (renderString k ++ ':' :: (render v ++ renderMembers rest))

/-- The rest of an array after an item. -/
def renderItems : List Json → List Char
  | [] => [']']
  | v :: rest => ',' :: (render v ++ renderItems rest)

/-- The rest of an object after a member. -/
def renderMembers : List (String × Json) → List Char
  | [] => ['\x7d']
  | (k, v) :: rest =>
      ',' :: (renderString k ++ ':' :: (render v ++ renderMembers rest))

end

/-- The compact text of a value as a string. -/
def compact (v : Json) : String :=
  String.ofList (render v)

end Json
end DocumentStore
