import DocumentStore.Access.Condition.Basic
import DocumentStore.Text.Blank

/-!
# Tokens of conditions

A text is cut into tokens, with blanks between them.  A token is the longest
that can start at its place.  Its offset is counted in bytes of UTF-8.
-/

namespace DocumentStore
namespace Condition

/-- A punctuation mark. -/
inductive Mark where
  | openParen
  | closeParen
  | openBracket
  | closeBracket
  | comma
  | dot
  | andAnd
  | orOr
  | bang
  | eqEq
  | notEq
  | lt
  | le
  | gt
  | ge
  | plus
  | minus
deriving DecidableEq, Repr

/-- The name of a mark in messages. -/
def Mark.name : Mark → String
  | openParen => "LParen"
  | closeParen => "RParen"
  | openBracket => "LBracket"
  | closeBracket => "RBracket"
  | comma => "Comma"
  | dot => "Dot"
  | andAnd => "AndAnd"
  | orOr => "OrOr"
  | bang => "Bang"
  | eqEq => "EqEq"
  | notEq => "NotEq"
  | lt => "Lt"
  | le => "Le"
  | gt => "Gt"
  | ge => "Ge"
  | plus => "Plus"
  | minus => "Minus"

/-- A token: a string, a number, a word or a mark. -/
inductive Token where
  | text (value : String)
  | number (value : Json.Number)
  | word (name : String)
  | mark (mark : Mark)
deriving DecidableEq

/-- A token with the offset at which it starts. -/
structure PlacedToken where
  token : Token
  offset : Nat
deriving DecidableEq

/-- The number of bytes of a text in UTF-8. -/
def byteLength : List Char → Nat
  | [] => 0
  | c :: cs => c.utf8Size + byteLength cs

/-- The character that an escaped one stands for. -/
def unescape (c : Char) : Char :=
  if c = 'n' then '\n' else if c = 't' then '\t' else c

/--
The value of a string after its opening quote, and how many characters it
takes up to and including the closing quote.
-/
def stringBody?
    (quote : Char) :
    List Char → Option (List Char × Nat)
  | [] => none
  | c :: rest =>
      if c = quote then some ([], 1)
      else if c = '\\' then
        match rest with
        | [] => none
        | e :: rest => (stringBody? quote rest).map fun r => (unescape e :: r.1, r.2 + 2)
      else (stringBody? quote rest).map fun r => (c :: r.1, r.2 + 1)

/-- Digits and points, which make up a number. -/
def isNumberChar (c : Char) : Bool :=
  c.isDigit || c = '.'

/-- Characters that start a word. -/
def isWordStart (c : Char) : Bool :=
  c.isAlpha || c = '_'

/-- Characters that continue a word. -/
def isWordChar (c : Char) : Bool :=
  c.isAlphanum || c = '_'

/--
The number that a run of digits and points stands for: an integer below 2^63
without a point, a finite binary64 number with one.
-/
def numberOf? (run : List Char) : Option Json.Number :=
  match run.span Char.isDigit with
  | (digits, []) =>
      let value := Text.digitsValue 10 digits
      if Json.Signed64 value then some (.integer value) else none
  | (whole, _ :: fraction) =>
      if fraction.all Char.isDigit then
        (Binary64.ofDecimal? false (Text.digitsValue 10 (whole ++ fraction)) (-fraction.length)).map
          .float
      else
        none

/-- The mark of two characters. -/
def doubleMark? : Char → Char → Option Mark
  | '&', '&' => some .andAnd
  | '|', '|' => some .orOr
  | '=', '=' => some .eqEq
  | '!', '=' => some .notEq
  | '<', '=' => some .le
  | '>', '=' => some .ge
  | _, _ => none

/-- The mark of one character. -/
def singleMark? : Char → Option Mark
  | '!' => some .bang
  | '<' => some .lt
  | '>' => some .gt
  | '+' => some .plus
  | '-' => some .minus
  | '(' => some .openParen
  | ')' => some .closeParen
  | '[' => some .openBracket
  | ']' => some .closeBracket
  | ',' => some .comma
  | '.' => some .dot
  | _ => none

/-- The mark that starts with a character, and how many more characters it takes. -/
def mark?
    (c : Char)
    (rest : List Char) :
    Option (Mark × Nat) :=
  match rest.head?.bind (doubleMark? c) with
  | some m => some (m, 1)
  | none => (singleMark? c).map fun m => (m, 0)

/--
The token that starts with a character that is no blank, and how many more
characters it takes.
-/
def lexeme
    (c : Char)
    (rest : List Char) :
    Except Fault (Token × Nat) :=
  match mark? c rest with
  | some (m, more) => .ok (.mark m, more)
  | none =>
      if c = '"' ∨ c = '\'' then
        match stringBody? c rest with
        | some (value, more) => .ok (.text (String.ofList value), more)
        | none => .error .unterminatedString
      else if c.isDigit then
        let run := c :: rest.takeWhile isNumberChar
        match numberOf? run with
        | some n => .ok (.number n, run.length - 1)
        | none => .error (.invalidNumber (String.ofList run))
      else if isWordStart c then
        let more := rest.takeWhile isWordChar
        .ok (.word (String.ofList (c :: more)), more.length)
      else
        .error (.unexpectedCharacter c)

/-- The tokens of a text that starts at an offset, or the first fault and its offset. -/
def tokensFrom
    (offset : Nat) :
    List Char → Except (Nat × Fault) (List PlacedToken)
  | [] => .ok []
  | c :: rest =>
      if Text.isBlank c then
        tokensFrom (offset + c.utf8Size) rest
      else
        match lexeme c rest with
        | .error fault => .error (offset, fault)
        | .ok (token, more) =>
            match tokensFrom (offset + byteLength (c :: rest.take more)) (rest.drop more) with
            | .error e => .error e
            | .ok tokens => .ok (⟨token, offset⟩ :: tokens)
termination_by cs => cs.length
decreasing_by
  · simp
  · simp only [List.length_drop, List.length_cons]
    omega

/-- The tokens of a text. -/
def tokenize (source : String) : Except (Nat × Fault) (List PlacedToken) :=
  tokensFrom 0 source.toList

end Condition
end DocumentStore
