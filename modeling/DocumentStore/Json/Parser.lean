import DocumentStore.Json.Source
import DocumentStore.Text.Digits

/-!
# Reading JSON text

A text is read whole: one tree, with blanks around it.  An integer literal
between -2^63 and 2^64-1 is an integer, except that minus zero is the negative
zero of binary64; every other number is binary64, its digits and its power of
ten rounded one after the other, and a literal beyond its range has no value.
In the text of a value arrays and objects may be nested 127 deep; what a record
passes over has no such limit.

Every reading function returns the rest of the text, and none when the text
does not have the form.  The fuel of the nested functions is the length of the
text, which no nesting exceeds.
-/

namespace DocumentStore
namespace Json
namespace Parser

/-- The blanks between tokens. -/
def isSpace (c : Char) : Bool :=
  c = ' ' || c = '\t' || c = '\n' || c = '\r'

/-- Skip blanks. -/
def skip (cs : List Char) : List Char :=
  cs.dropWhile isSpace

/-- The code unit written by four hexadecimal digits. -/
def codeUnit? (digits : List Char) : Option Nat :=
  if digits.all fun c => (Text.hexValue? c).isSome then some (Text.digitsValue 16 digits)
  else none

/-- What a string literal lists: a character, or the code unit that an escape gives. -/
inductive Piece where
  | char (c : Char)
  | unit (value : Nat)
deriving DecidableEq, Repr

/-- The character that a letter after a backslash stands for. -/
def escaped? : Char → Option Char
  | '"' => some '"'
  | '\\' => some '\\'
  | '/' => some '/'
  | 'b' => some '\x08'
  | 'f' => some '\x0c'
  | 'n' => some '\n'
  | 'r' => some '\r'
  | 't' => some '\t'
  | _ => none

/-- The pieces up to the closing quote. -/
def pieces? : List Char → Option (List Piece × List Char)
  | '"' :: rest => some ([], rest)
  | '\\' :: 'u' :: a :: b :: c :: d :: rest =>
      match codeUnit? [a, b, c, d], pieces? rest with
      | some n, some (pieces, rest) => some (.unit n :: pieces, rest)
      | _, _ => none
  | '\\' :: letter :: rest =>
      match escaped? letter, pieces? rest with
      | some c, some (pieces, rest) => some (.char c :: pieces, rest)
      | _, _ => none
  | c :: rest =>
      if c.toNat < 0x20 then none
      else (pieces? rest).map fun r => (.char c :: r.1, r.2)
  | [] => none

/-- A code unit that is the first half of a pair. -/
def isHighSurrogate (n : Nat) : Bool :=
  0xD800 ≤ n && n < 0xDC00

/-- A code unit that is the second half of a pair. -/
def isLowSurrogate (n : Nat) : Bool :=
  0xDC00 ≤ n && n < 0xE000

/-- The characters that pieces spell; half of a pair that stands alone spells none. -/
def spell? : List Piece → Option (List Char)
  | [] => some []
  | .char c :: rest => (spell? rest).map (c :: ·)
  | .unit high :: .unit low :: rest =>
      if isHighSurrogate high && isLowSurrogate low then
        (spell? rest).map
          (Char.ofNat (0x10000 + (high - 0xD800) * 0x400 + (low - 0xDC00)) :: ·)
      else if isHighSurrogate high || isLowSurrogate high then none
      else (spell? (.unit low :: rest)).map (Char.ofNat high :: ·)
  | .unit n :: rest =>
      if isHighSurrogate n || isLowSurrogate n then none
      else (spell? rest).map (Char.ofNat n :: ·)

/-- A string literal after its opening quote; one that spells no string is none. -/
def string? (cs : List Char) : Option (Option String × List Char) :=
  (pieces? cs).map fun r => ((spell? r.1).map String.ofList, r.2)

/-- Append digits to a whole number while the result stays below 2^64. -/
def accumulate :
    (whole : Nat) → List Char → Nat × List Char
  | whole, [] => (whole, [])
  | whole, c :: rest =>
      let next := whole * 10 + (c.toNat - '0'.toNat)
      if Unsigned64 next then accumulate next rest else (whole, c :: rest)

/-- The power of ten whose digits start the text, after its sign. -/
def power?
    (negative : Bool)
    (cs : List Char) :
    Option (Int × List Char) :=
  let digits := cs.takeWhile Char.isDigit
  if digits.isEmpty then none
  else
    let value : Int := Text.digitsValue 10 digits
    some (if negative then -value else value, cs.drop digits.length)

/-- The power of ten that starts the text. -/
def signedPower? : List Char → Option (Int × List Char)
  | '-' :: rest => power? true rest
  | '+' :: rest => power? false rest
  | rest => power? false rest

/-- The exponent after `e`, if the text goes on with one. -/
def exponent? : List Char → Option (Option Int × List Char)
  | c :: rest =>
      if c = 'e' ∨ c = 'E' then (signedPower? rest).map fun r => (some r.1, r.2)
      else some (none, c :: rest)
  | [] => some (none, [])

/-- The digits after a point, if the text goes on with one. -/
def fraction? : List Char → Option (Option (List Char) × List Char)
  | '.' :: rest =>
      let digits := rest.takeWhile Char.isDigit
      if digits.isEmpty then none else some (some digits, rest.drop digits.length)
  | rest => some (none, rest)

/-- A binary64 number from the parts of its literal; none if it is out of range. -/
def float?
    (negative : Bool)
    (digits fraction : List Char)
    (exponent : Int) :
    Option Number :=
  let (whole, dropped) := accumulate 0 digits
  let (whole, ignored) := accumulate whole fraction
  let places : Int := fraction.length - ignored.length
  (Binary64.scaled? whole (dropped.length - places + exponent)).map fun x =>
    .float (if negative then x.neg else x)

/-- The number whose literal has given parts; without fraction and exponent it may be an integer. -/
def literal?
    (negative : Bool)
    (digits : List Char)
    (fraction : Option (List Char))
    (exponent : Option Int) :
    Option Number :=
  let value := Text.digitsValue 10 digits
  if fraction.isSome || exponent.isSome then
    float? negative digits (fraction.getD []) (exponent.getD 0)
  else if negative then
    if value = 0 then some (.float Binary64.zero.neg)
    else if Signed64 (-value) then some (.integer (-value))
    else float? true digits [] 0
  else if Unsigned64 value then some (.integer value)
  else float? false digits [] 0

/-- The number whose digits start the text, after its sign; one that is out of range is none. -/
def unsigned?
    (negative : Bool)
    (cs : List Char) :
    Option (Option Number × List Char) :=
  let digits := cs.takeWhile Char.isDigit
  let rest := cs.drop digits.length
  if digits.isEmpty || (digits.length != 1 && digits.head? == some '0') then none
  else
    match fraction? rest with
    | none => none
    | some (fraction, rest) =>
        match exponent? rest with
        | none => none
        | some (exponent, rest) => some (literal? negative digits fraction exponent, rest)

/-- The number whose literal starts the text. -/
def number? : List Char → Option (Option Number × List Char)
  | '-' :: rest => unsigned? true rest
  | rest => unsigned? false rest

mutual

/-- The tree that starts the text, after blanks. -/
def value? :
    (fuel : Nat) → List Char → Option (Source × List Char)
  | 0, _ => none
  | fuel + 1, cs =>
      match skip cs with
      | 'n' :: 'u' :: 'l' :: 'l' :: rest => some (.null, rest)
      | 't' :: 'r' :: 'u' :: 'e' :: rest => some (.bool true, rest)
      | 'f' :: 'a' :: 'l' :: 's' :: 'e' :: rest => some (.bool false, rest)
      | '"' :: rest => (string? rest).map fun r => (.string r.1, r.2)
      | '[' :: rest =>
          match skip rest with
          | ']' :: rest => some (.array [], rest)
          | rest => (items? fuel rest).map fun r => (.array r.1, r.2)
      | '\x7b' :: rest =>
          match skip rest with
          | '\x7d' :: rest => some (.object [], rest)
          | rest => (members? fuel rest).map fun r => (.object r.1, r.2)
      | rest => (number? rest).map fun r => (.number r.1, r.2)

/-- The items of an array up to its closing bracket. -/
def items? :
    (fuel : Nat) → List Char → Option (List Source × List Char)
  | 0, _ => none
  | fuel + 1, cs =>
      match value? fuel cs with
      | none => none
      | some (v, rest) =>
          match skip rest with
          | ']' :: rest => some ([v], rest)
          | ',' :: rest => (items? fuel rest).map fun r => (v :: r.1, r.2)
          | _ => none

/-- The members of an object up to its closing brace. -/
def members? :
    (fuel : Nat) → List Char → Option (List (Option String × Source) × List Char)
  | 0, _ => none
  | fuel + 1, cs =>
      match skip cs with
      | '"' :: rest =>
          match string? rest with
          | none => none
          | some (name, rest) =>
              match skip rest with
              | ':' :: rest =>
                  match value? fuel rest with
                  | none => none
                  | some (v, rest) =>
                      match skip rest with
                      | '\x7d' :: rest => some ([(name, v)], rest)
                      | ',' :: rest => (members? fuel rest).map fun r => ((name, v) :: r.1, r.2)
                      | _ => none
              | _ => none
      | _ => none

end

end Parser

/-- The tree that a text spells. -/
def Source.parse? (text : String) : Option Source :=
  let cs := text.toList
  match Parser.value? (cs.length + 1) cs with
  | none => none
  | some (s, rest) => if (Parser.skip rest).isEmpty then some s else none

/-- How many arrays and objects may stand inside each other in the text of a value. -/
def nestingLimit : Nat := 127

/-- The value of a text. -/
def parse? (text : String) : Option Json :=
  (Source.parse? text).bind fun s => if s.depth ≤ nestingLimit then s.toJson? else none

end Json
end DocumentStore
