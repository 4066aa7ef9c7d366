import DocumentStore.Access.Builtin

/-!
# Conditions

The condition of an access rule is an expression over JSON values.  Variables
are dotted names that start with `auth`, `resource`, `request` or a variable
of the rule's path pattern.
-/

namespace DocumentStore

/-- A comparison sign. -/
inductive CompareOp where
  | eq
  | ne
  | lt
  | le
  | gt
  | ge
deriving DecidableEq, Repr

/-- An expression over JSON values. -/
inductive Condition where
  | literal (value : Json)
  | list (items : List Condition)
  | var (root : String) (fields : List String)
  | not (inner : Condition)
  | and (left right : Condition)
  | or (left right : Condition)
  | compare (op : CompareOp) (left right : Condition)
  | isIn (needle haystack : Condition)
  | add (left right : Condition)
  | call (builtin : Builtin) (args : List Condition)

namespace Condition

/-- The names that may start a variable in every rule. -/
def roots : List String := ["auth", "resource", "request"]

/-- Why a text is no condition, at some place of it. -/
inductive Fault where
  | unterminatedString
  | invalidNumber (text : String)
  | unexpectedCharacter (c : Char)
  | unexpectedEnd
  | unexpectedToken (name : String)
  | unexpectedTrailing
  | expected (what : String)
  | minusWithoutNumber
  | unknownVariable (name : String)
  | expectedFieldName
deriving DecidableEq, Repr

/-- The fault in words. -/
def Fault.message : Fault → String
  | unterminatedString => "unterminated string"
  | invalidNumber text => "invalid number '" ++ text ++ "'"
  | unexpectedCharacter c => "unexpected character '" ++ String.ofList [c] ++ "'"
  | unexpectedEnd => "unexpected end of condition"
  | unexpectedToken name => "unexpected " ++ name
  | unexpectedTrailing => "unexpected trailing input"
  | expected what => "expected " ++ what
  | minusWithoutNumber => "'-' must precede a number"
  | unknownVariable name => "unknown variable '" ++ name ++ "'"
  | expectedFieldName => "expected field name after '.'"

/-- Why a condition cannot be used: its text is at fault, or one of its calls. -/
inductive Error where
  | fault (offset : Nat) (fault : Fault)
  | unknownFunction (name : String)
  | arity (name : String) (expected found : Nat)
deriving DecidableEq, Repr

end Condition
end DocumentStore
