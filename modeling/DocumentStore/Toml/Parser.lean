import DocumentStore.Toml.Moment
import DocumentStore.Toml.Table

/-!
# Reading TOML text

A text is a list of lines: headers in brackets, and keys with values.  Values
are strings of the four kinds, integers, floats, truth values, dates and times,
arrays and inline tables.  No value is nested deeper and no key has more parts
than `depthLimit`.  Every reading function returns the rest of the text, and
none when the text does not have the form.  Their fuel starts above twice the
length of the text, and of two steps in a row at least one reads a character.
-/

namespace DocumentStore
namespace Toml
namespace Parser

/-- The result of a reading function: what was read, and the rest of the text. -/
abbrev Result (α : Type) := Option (α × List Char)

/-- The greatest depth of arrays and inline tables, and the greatest number of parts of a key. -/
def depthLimit : Nat := 79

/-! ### Blanks, comments and line ends -/

/-- Blanks within a line. -/
def isSpace (c : Char) : Bool :=
  c = ' ' || c = '\t'

/-- Skip blanks within a line. -/
def skipSpace (cs : List Char) : List Char :=
  cs.dropWhile isSpace

/-- Control characters other than the tab, which stand nowhere in a text. -/
def isControl (c : Char) : Bool :=
  (c.toNat < 0x20 && c != '\t') || c.toNat = 0x7f

/-- A line end. -/
def newline? : List Char → Option (List Char)
  | '\n' :: rest => some rest
  | '\r' :: '\n' :: rest => some rest
  | _ => none

/-- Skip a comment. -/
def skipComment : List Char → List Char
  | '#' :: rest => rest.dropWhile fun c => !isControl c
  | cs => cs

/-- The end of a line, after blanks and a comment. -/
def lineEnd? (cs : List Char) : Option (List Char) :=
  match skipComment (skipSpace cs) with
  | [] => some []
  | rest => newline? rest

/-- Skip blanks, comments and line ends. -/
def skipLines :
    (fuel : Nat) → List Char → List Char
  | 0, cs => cs
  | fuel + 1, cs =>
      let rest := skipComment (skipSpace cs)
      match newline? rest with
      | some rest => skipLines fuel rest
      | none => rest

/-! ### Strings -/

/-- A code point written by a number of hexadecimal digits. -/
def codePoint?
    (width : Nat)
    (cs : List Char) :
    Result Char :=
  match (cs.take width).mapM Text.hexValue? with
  | none => none
  | some digits =>
      let code := digits.foldl (fun n d => n * 16 + d) 0
      if digits.length = width ∧ (code < 0xD800 ∨ (0xDFFF < code ∧ code < 0x110000)) then
        some (Char.ofNat code, cs.drop width)
      else
        none

/-- The character after a backslash. -/
def escape? : List Char → Result Char
  | 'b' :: rest => some ('\x08', rest)
  | 't' :: rest => some ('\t', rest)
  | 'n' :: rest => some ('\n', rest)
  | 'f' :: rest => some ('\x0c', rest)
  | 'r' :: rest => some ('\r', rest)
  | '"' :: rest => some ('"', rest)
  | '\\' :: rest => some ('\\', rest)
  | 'u' :: rest => codePoint? 4 rest
  | 'U' :: rest => codePoint? 8 rest
  | _ => none

/-- A string in double quotes, after the opening quote. -/
def basic? :
    (fuel : Nat) → List Char → Result (List Char)
  | 0, _ => none
  | fuel + 1, cs =>
      match cs with
      | [] => none
      | '"' :: rest => some ([], rest)
      | '\\' :: rest =>
          match escape? rest with
          | none => none
          | some (c, rest) => (basic? fuel rest).map fun r => (c :: r.1, r.2)
      | c :: rest =>
          if isControl c then none
          else (basic? fuel rest).map fun r => (c :: r.1, r.2)

/-- A string in single quotes, after the opening quote. -/
def literal? (cs : List Char) : Result (List Char) :=
  let body := cs.takeWhile fun c => c != '\'' && !isControl c
  match cs.drop body.length with
  | '\'' :: rest => some (body, rest)
  | _ => none

/-- Skip blanks and line ends. -/
def skipBreaks : List Char → List Char
  | '\n' :: rest => skipBreaks rest
  | '\r' :: '\n' :: rest => skipBreaks rest
  | c :: rest => if isSpace c then skipBreaks rest else c :: rest
  | [] => []

/-- The text after a backslash at the end of a line, if it stands there. -/
def lineBreak? (cs : List Char) : Option (List Char) :=
  (newline? (skipSpace cs)).map skipBreaks

/--
The closing of a string of several lines: three quotes, before which one or
two more may belong to the string.
-/
def closing?
    (quote : Char)
    (cs : List Char) :
    Result (List Char) :=
  let run := cs.takeWhile (· = quote)
  if 3 ≤ run.length then
    let kept := min 2 (run.length - 3)
    some (run.take kept, cs.drop (kept + 3))
  else
    none

/-- A string of several lines, after its opening. -/
def several?
    (quote : Char) :
    (fuel : Nat) → List Char → Result (List Char)
  | 0, _ => none
  | fuel + 1, cs =>
      match closing? quote cs with
      | some r => some r
      | none =>
          match newline? cs with
          | some rest => (several? quote fuel rest).map fun r => ('\n' :: r.1, r.2)
          | none =>
              match cs with
              | [] => none
              | c :: rest =>
                  if c = '\\' ∧ quote = '"' then
                    match lineBreak? rest with
                    | some rest => several? quote fuel rest
                    | none =>
                        match escape? rest with
                        | none => none
                        | some (c, rest) =>
                            (several? quote fuel rest).map fun r => (c :: r.1, r.2)
                  else if isControl c then none
                  else (several? quote fuel rest).map fun r => (c :: r.1, r.2)

/-- A string of any kind. -/
def string?
    (fuel : Nat)
    (cs : List Char) :
    Result String :=
  let read : Result (List Char) :=
    match cs with
    | '"' :: '"' :: '"' :: rest => several? '"' fuel ((newline? rest).getD rest)
    | '\'' :: '\'' :: '\'' :: rest => several? '\'' fuel ((newline? rest).getD rest)
    | '"' :: rest => basic? fuel rest
    | '\'' :: rest => literal? rest
    | _ => none
  read.map fun r => (String.ofList r.1, r.2)

/-! ### Keys -/

/-- Characters of a key without quotes. -/
def isKeyChar (c : Char) : Bool :=
  c.isAlphanum || c = '_' || c = '-'

/-- One part of a key. -/
def simpleKey?
    (fuel : Nat)
    (cs : List Char) :
    Result String :=
  match cs with
  | '"' :: rest => (basic? fuel rest).map fun r => (String.ofList r.1, r.2)
  | '\'' :: rest => (literal? rest).map fun r => (String.ofList r.1, r.2)
  | _ =>
      let name := cs.takeWhile isKeyChar
      if name.isEmpty then none else some (String.ofList name, cs.drop name.length)

/-- The parts of a key: the last one, and those before it. -/
def parts? :
    (fuel : Nat) → List Char → Result (List String × String)
  | 0, _ => none
  | fuel + 1, cs =>
      match simpleKey? fuel (skipSpace cs) with
      | none => none
      | some (name, rest) =>
          match skipSpace rest with
          | '.' :: rest => (parts? fuel rest).map fun r => ((name :: r.1.1, r.1.2), r.2)
          | rest => some (([], name), rest)

/-- A key: its last part, and the parts before it. -/
def key?
    (fuel : Nat)
    (cs : List Char) :
    Result (List String × String) :=
  (parts? fuel cs).filter fun r => r.1.1.length < depthLimit

/-! ### Numbers -/

/-- Digits with single underscores between them, without the underscores. -/
def grouped?
    (isDigit : Char → Bool) :
    List Char → Option (List Char)
  | [] => none
  | [c] => if isDigit c then some [c] else none
  | c :: '_' :: rest => if isDigit c then (grouped? isDigit rest).map (c :: ·) else none
  | c :: rest => if isDigit c then (grouped? isDigit rest).map (c :: ·) else none

/-- Decimal digits without a needless zero in front. -/
def decimal? (cs : List Char) : Option (List Char) :=
  match grouped? Char.isDigit cs with
  | some ('0' :: _ :: _) => none
  | digits => digits

/-- An integer of 64 bits. -/
def inRange? (i : Int) : Option Value :=
  if Json.Signed64 i then some (.integer i) else none

/-- A sign, and the rest. -/
def sign : List Char → Bool × List Char
  | '-' :: rest => (true, rest)
  | '+' :: rest => (false, rest)
  | rest => (false, rest)

/-- An exponent, without its letter. -/
def exponent? (cs : List Char) : Option Int :=
  let (negative, digits) := sign cs
  (grouped? Char.isDigit digits).map fun digits =>
    let value : Int := Text.digitsValue 10 digits
    if negative then -value else value

/-- A float from its parts; a negative one may be out of range, a positive one may not. -/
def float?
    (negative : Bool)
    (whole fraction : List Char)
    (exponent : Int) :
    Option Value :=
  match Binary64.ofDecimal? negative (Text.digitsValue 10 (whole ++ fraction))
      (exponent - fraction.length) with
  | some x => some (.float (some x))
  | none => if negative then some (.float none) else none

/-- A decimal integer or a float, after its sign. -/
def unsigned?
    (negative : Bool)
    (cs : List Char) :
    Option Value :=
  let (mantissa, power) := cs.span fun c => c != 'e' && c != 'E'
  let (whole, fraction) := mantissa.span (· != '.')
  match decimal? whole, fraction, power with
  | none, _, _ => none
  | some digits, [], [] =>
      let value : Int := Text.digitsValue 10 digits
      inRange? (if negative then -value else value)
  | some digits, [], _ :: power =>
      (exponent? power).bind fun e => float? negative digits [] e
  | some digits, _ :: fraction, [] =>
      (grouped? Char.isDigit fraction).bind fun f => float? negative digits f 0
  | some digits, _ :: fraction, _ :: power =>
      (grouped? Char.isDigit fraction).bind fun f =>
        (exponent? power).bind fun e => float? negative digits f e

/-- Whether a character is a digit of a base. -/
def isDigitOf (base : Nat) (c : Char) : Bool :=
  (Text.hexValue? c).any (· < base)

/-- The value of a word: a truth value or a number. -/
def word? (word : List Char) : Option Value :=
  match word with
  | ['t', 'r', 'u', 'e'] => some (.bool true)
  | ['f', 'a', 'l', 's', 'e'] => some (.bool false)
  | '0' :: 'x' :: rest =>
      (grouped? (isDigitOf 16) rest).bind fun ds => inRange? (Text.digitsValue 16 ds)
  | '0' :: 'o' :: rest =>
      (grouped? (isDigitOf 8) rest).bind fun ds => inRange? (Text.digitsValue 8 ds)
  | '0' :: 'b' :: rest =>
      (grouped? (isDigitOf 2) rest).bind fun ds => inRange? (Text.digitsValue 2 ds)
  | _ =>
      let (negative, rest) := sign word
      if rest = ['i', 'n', 'f'] ∨ rest = ['n', 'a', 'n'] then some (.float none)
      else unsigned? negative rest

/-- Characters of truth values and numbers. -/
def isWordChar (c : Char) : Bool :=
  c.isAlphanum || c = '_' || c = '-' || c = '+' || c = '.'

/-! ### Values -/

mutual

/-- A value, within so many more arrays and inline tables. -/
def value? :
    (fuel depth : Nat) → List Char → Result Value
  | 0, _, _ => none
  | fuel + 1, depth, cs =>
      match cs, depth with
      | '[' :: _, 0 | '\x7b' :: _, 0 => none
      | '[' :: rest, depth + 1 => (items? fuel depth rest).map fun r => (.array r.1, r.2)
      | '\x7b' :: rest, depth + 1 =>
          match skipSpace rest with
          | '\x7d' :: rest => some (.table [], rest)
          | rest => (inline? fuel depth [] rest).map fun r => (.table (finishEntries r.1), r.2)
      | c :: _, _ =>
          if c = '"' ∨ c = '\'' then (string? fuel cs).map fun r => (.string r.1, r.2)
          else
            match Moment.moment? cs with
            | some rest => some (.moment, rest)
            | none =>
                let word := cs.takeWhile isWordChar
                (word? word).map fun v => (v, cs.drop word.length)
      | [], _ => none

/-- The items of an array, over any number of lines. -/
def items? :
    (fuel depth : Nat) → List Char → Result (List Value)
  | 0, _, _ => none
  | fuel + 1, depth, cs =>
      match skipLines fuel cs with
      | ']' :: rest => some ([], rest)
      | cs =>
          match value? fuel depth cs with
          | none => none
          | some (v, rest) =>
              match skipLines fuel rest with
              | ']' :: rest => some ([v], rest)
              | ',' :: rest => (items? fuel depth rest).map fun r => (v :: r.1, r.2)
              | _ => none

/-- The entries of an inline table, within one line. -/
def inline? :
    (fuel depth : Nat) → Entries → List Char → Result Entries
  | 0, _, _, _ => none
  | fuel + 1, depth, entries, cs =>
      match key? fuel cs with
      | some ((path, name), '=' :: rest) =>
          match value? fuel depth (skipSpace rest) with
          | none => none
          | some (v, rest) =>
              match put? name v path entries with
              | none => none
              | some entries =>
                  match skipSpace rest with
                  | '\x7d' :: rest => some (entries, rest)
                  | ',' :: rest => inline? fuel depth entries rest
                  | _ => none
      | _ => none

end

/-! ### Lines -/

/-- The tables so far, and the path of the one that keys go to. -/
structure State where
  entries : Entries
  current : List String

/-- A header in single or double brackets. -/
def header?
    (fuel : Nat)
    (s : State)
    (cs : List Char) :
    Result State :=
  let double := cs.head? == some '['
  let cs := if double then cs.drop 1 else cs
  match key? fuel cs with
  | some ((path, name), ']' :: rest) =>
      let rest? :=
        if double then
          match rest with
          | ']' :: rest => some rest
          | _ => none
        else some rest
      let change := if double then addTable? name else nameTable? name
      match rest?, changeAt? change path s.entries with
      | some rest, some entries => some (⟨entries, path ++ [name]⟩, rest)
      | _, _ => none
  | _ => none

/-- A key with its value. -/
def assignment?
    (fuel : Nat)
    (s : State)
    (cs : List Char) :
    Result State :=
  match key? fuel cs with
  | some ((path, name), '=' :: rest) =>
      match value? fuel depthLimit (skipSpace rest) with
      | none => none
      | some (v, rest) =>
          (changeAt? (put? name v path) s.current s.entries).map fun entries =>
            ({ s with entries }, rest)
  | _ => none

/-- The lines of a document. -/
def lines? :
    (fuel : Nat) → State → List Char → Option State
  | 0, _, _ => none
  | fuel + 1, s, cs =>
      match skipLines fuel cs with
      | [] => some s
      | c :: rest =>
          match if c = '[' then header? fuel s rest else assignment? fuel s (c :: rest) with
          | none => none
          | some (s, rest) =>
              match lineEnd? rest with
              | none => none
              | some rest => lines? fuel s rest

end Parser

/-- The document that a text stands for. -/
def parse? (text : String) : Option Value :=
  let cs :=
    match text.toList with
    | '\ufeff' :: rest => rest
    | cs => cs
  (Parser.lines? (2 * cs.length + 2) ⟨[], []⟩ cs).map fun s => .table (finishEntries s.entries)

end Toml
end DocumentStore
