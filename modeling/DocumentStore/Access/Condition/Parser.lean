import DocumentStore.Access.Condition.Token

/-!
# Reading conditions

The grammar, lowest precedence first:

    or      := and ( "||" and )*
    and     := unary ( "&&" unary )*
    unary   := "!" unary | compare
    compare := sum ( ( "==" | "!=" | "<" | "<=" | ">" | ">=" | "in" ) sum )?
    sum     := primary ( "+" primary )*
    primary := literal | "[" list "]" | "(" or ")" | call | variable

A minus sign stands only before a number.  Every reading function takes the
tokens that are left and returns a condition with the tokens after it.  The
fuel is eight times the number of tokens, and eight more: between two tokens
no more than seven functions are entered.
-/

namespace DocumentStore
namespace Condition
namespace Parser

/-- A reading function's result: what was read, and the tokens after it. -/
abbrev Result (α : Type) := Except Error (α × List PlacedToken)

/-- What the reading functions know: the variables of the pattern, and the length of the text. -/
structure Source where
  bound : List String
  length : Nat

/-- The offset of the next token, or the end of the text. -/
def Source.offset
    (s : Source) :
    List PlacedToken → Nat
  | [] => s.length
  | t :: _ => t.offset

/-- A fault at the next token. -/
def Source.fail
    {α : Type}
    (s : Source)
    (tokens : List PlacedToken)
    (fault : Fault) :
    Result α :=
  .error (.fault (s.offset tokens) fault)

/-- The comparison that a token stands for. -/
def compareOp? : Token → Option CompareOp
  | .mark .eqEq => some .eq
  | .mark .notEq => some .ne
  | .mark .lt => some .lt
  | .mark .le => some .le
  | .mark .gt => some .gt
  | .mark .ge => some .ge
  | _ => none

/-- The number with the opposite sign; an integer zero has none. -/
def negate : Json.Number → Json.Number
  | .integer i => .integer (-i)
  | .float x => .float x.neg

/-- The literal that a word stands for. -/
def literalWord? (word : String) : Option Json :=
  match word with
  | "true" => some (.bool true)
  | "false" => some (.bool false)
  | "null" => some .null
  | _ => none

/-- The field names of a variable, each after a dot. -/
def fields
    (s : Source) :
    List PlacedToken → Result (List String)
  | ⟨.mark .dot, _⟩ :: ⟨.word name, _⟩ :: rest =>
      match fields s rest with
      | .error e => .error e
      | .ok (names, rest) => .ok (name :: names, rest)
  | ⟨.mark .dot, _⟩ :: rest => s.fail rest .expectedFieldName
  | rest => .ok ([], rest)

/-- A variable whose first word has been read at an offset. -/
def variableAfter
    (s : Source)
    (offset : Nat)
    (word : String)
    (tokens : List PlacedToken) :
    Result Condition :=
  if roots.contains word || s.bound.contains word then
    match fields s tokens with
    | .error e => .error e
    | .ok (names, rest) => .ok (.var word names, rest)
  else
    .error (.fault offset (.unknownVariable word))

/-- A call with its arguments, if there is such a function of that many arguments. -/
def callOf
    (word : String)
    (args : List Condition) :
    Except Error Condition :=
  match Builtin.resolve? word with
  | none => .error (.unknownFunction word)
  | some builtin =>
      if builtin.arity = args.length then .ok (.call builtin args)
      else .error (.arity word builtin.arity args.length)

mutual

/-- Conjunctions between `||`. -/
def disjunction
    (s : Source) :
    (fuel : Nat) → List PlacedToken → Result Condition
  | 0, tokens => s.fail tokens .unexpectedEnd
  | fuel + 1, tokens =>
      match conjunction s fuel tokens with
      | .error e => .error e
      | .ok (left, rest) => disjunctionTail s fuel left rest

/-- The rest of a disjunction after its first part. -/
def disjunctionTail
    (s : Source) :
    (fuel : Nat) → Condition → List PlacedToken → Result Condition
  | 0, _, tokens => s.fail tokens .unexpectedEnd
  | fuel + 1, left, tokens =>
      match tokens with
      | ⟨.mark .orOr, _⟩ :: rest =>
          match conjunction s fuel rest with
          | .error e => .error e
          | .ok (right, rest) => disjunctionTail s fuel (.or left right) rest
      | rest => .ok (left, rest)

/-- Negations and comparisons between `&&`. -/
def conjunction
    (s : Source) :
    (fuel : Nat) → List PlacedToken → Result Condition
  | 0, tokens => s.fail tokens .unexpectedEnd
  | fuel + 1, tokens =>
      match negation s fuel tokens with
      | .error e => .error e
      | .ok (left, rest) => conjunctionTail s fuel left rest

/-- The rest of a conjunction after its first part. -/
def conjunctionTail
    (s : Source) :
    (fuel : Nat) → Condition → List PlacedToken → Result Condition
  | 0, _, tokens => s.fail tokens .unexpectedEnd
  | fuel + 1, left, tokens =>
      match tokens with
      | ⟨.mark .andAnd, _⟩ :: rest =>
          match negation s fuel rest with
          | .error e => .error e
          | .ok (right, rest) => conjunctionTail s fuel (.and left right) rest
      | rest => .ok (left, rest)

/-- A comparison with any number of `!` before it. -/
def negation
    (s : Source) :
    (fuel : Nat) → List PlacedToken → Result Condition
  | 0, tokens => s.fail tokens .unexpectedEnd
  | fuel + 1, tokens =>
      match tokens with
      | ⟨.mark .bang, _⟩ :: rest =>
          match negation s fuel rest with
          | .error e => .error e
          | .ok (inner, rest) => .ok (.not inner, rest)
      | rest => comparison s fuel rest

/-- A sum, or two with a comparison between them. -/
def comparison
    (s : Source) :
    (fuel : Nat) → List PlacedToken → Result Condition
  | 0, tokens => s.fail tokens .unexpectedEnd
  | fuel + 1, tokens =>
      match sum s fuel tokens with
      | .error e => .error e
      | .ok (left, []) => .ok (left, [])
      | .ok (left, t :: rest) =>
          if t.token = .word "in" then
            match sum s fuel rest with
            | .error e => .error e
            | .ok (right, rest) => .ok (.isIn left right, rest)
          else
            match compareOp? t.token with
            | none => .ok (left, t :: rest)
            | some op =>
                match sum s fuel rest with
                | .error e => .error e
                | .ok (right, rest) => .ok (.compare op left right, rest)

/-- Primaries between `+`. -/
def sum
    (s : Source) :
    (fuel : Nat) → List PlacedToken → Result Condition
  | 0, tokens => s.fail tokens .unexpectedEnd
  | fuel + 1, tokens =>
      match primary s fuel tokens with
      | .error e => .error e
      | .ok (left, rest) => sumTail s fuel left rest

/-- The rest of a sum after its first part. -/
def sumTail
    (s : Source) :
    (fuel : Nat) → Condition → List PlacedToken → Result Condition
  | 0, _, tokens => s.fail tokens .unexpectedEnd
  | fuel + 1, left, tokens =>
      match tokens with
      | ⟨.mark .plus, _⟩ :: rest =>
          match primary s fuel rest with
          | .error e => .error e
          | .ok (right, rest) => sumTail s fuel (.add left right) rest
      | rest => .ok (left, rest)

/-- A literal, a list, a parenthesis, a call or a variable. -/
def primary
    (s : Source) :
    (fuel : Nat) → List PlacedToken → Result Condition
  | 0, tokens => s.fail tokens .unexpectedEnd
  | fuel + 1, tokens =>
      match tokens with
      | [] => s.fail [] .unexpectedEnd
      | ⟨.text value, _⟩ :: rest => .ok (.literal (.string value), rest)
      | ⟨.number n, _⟩ :: rest => .ok (.literal (.number n), rest)
      | ⟨.mark .minus, _⟩ :: ⟨.number n, _⟩ :: rest =>
          .ok (.literal (.number (negate n)), rest)
      | ⟨.mark .minus, offset⟩ :: _ => .error (.fault offset .minusWithoutNumber)
      | ⟨.mark .openParen, _⟩ :: rest =>
          match disjunction s fuel rest with
          | .error e => .error e
          | .ok (inner, ⟨.mark .closeParen, _⟩ :: rest) => .ok (inner, rest)
          | .ok (_, rest) => s.fail rest (.expected "')'")
      | ⟨.mark .openBracket, _⟩ :: ⟨.mark .closeBracket, _⟩ :: rest =>
          .ok (.list [], rest)
      | ⟨.mark .openBracket, _⟩ :: rest =>
          match items s .closeBracket "',' or ']'" fuel rest with
          | .error e => .error e
          | .ok (items, rest) => .ok (.list items, rest)
      | ⟨.word word, offset⟩ :: rest =>
          match literalWord? word with
          | some value => .ok (.literal value, rest)
          | none =>
              match rest with
              | ⟨.mark .openParen, _⟩ :: ⟨.mark .closeParen, _⟩ :: rest =>
                  (callOf word []).map fun call => (call, rest)
              | ⟨.mark .openParen, _⟩ :: rest =>
                  match items s .closeParen "',' or ')'" fuel rest with
                  | .error e => .error e
                  | .ok (args, rest) => (callOf word args).map fun call => (call, rest)
              | rest => variableAfter s offset word rest
      | ⟨.mark m, offset⟩ :: _ => .error (.fault offset (.unexpectedToken m.name))

/-- Conditions with commas between them, up to a closing mark. -/
def items
    (s : Source)
    (close : Mark)
    (what : String) :
    (fuel : Nat) → List PlacedToken → Result (List Condition)
  | 0, tokens => s.fail tokens .unexpectedEnd
  | fuel + 1, tokens =>
      match disjunction s fuel tokens with
      | .error e => .error e
      | .ok (_, []) => s.fail [] (.expected what)
      | .ok (item, t :: rest) =>
          if t.token = .mark close then .ok ([item], rest)
          else if t.token = .mark .comma then
            match items s close what fuel rest with
            | .error e => .error e
            | .ok (more, rest) => .ok (item :: more, rest)
          else s.fail (t :: rest) (.expected what)

end

end Parser

/-- The condition that a text stands for, in a rule whose pattern has given variables. -/
def parse
    (source : String)
    (bound : List String) :
    Except Error Condition :=
  match tokenize source with
  | .error (offset, fault) => .error (.fault offset fault)
  | .ok tokens =>
      let s : Parser.Source := ⟨bound, source.utf8ByteSize⟩
      match Parser.disjunction s (8 * tokens.length + 8) tokens with
      | .error e => .error e
      | .ok (condition, []) => .ok condition
      | .ok (_, t :: _) => .error (.fault t.offset .unexpectedTrailing)

end Condition
end DocumentStore
