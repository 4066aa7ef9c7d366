import DocumentStore.Access.Condition.Basic
import DocumentStore.Access.Kind

/-!
# Errors of rule sets

They arise while a rule set is read.  Evaluation has no errors: a condition
that cannot be evaluated does not hold.
-/

namespace DocumentStore

/-- Why a text is no path pattern. -/
inductive PatternFault where
  | emptyPattern
  | boundTwice (name : String)
  | badSegment (segment : String)
deriving DecidableEq, Repr

/-- The fault in words. -/
def PatternFault.message : PatternFault → String
  | emptyPattern => "pattern is empty"
  | boundTwice name => "variable '" ++ name ++ "' is bound twice"
  | badSegment segment => "'" ++ segment ++ "' is not a valid segment"

/-- Why a rule set cannot be used as a whole. -/
inductive RuleSetFault where
  /-- The text or one of its rules does not have the form of a rule set. -/
  | unreadable
  | unknownOperation (rule operation : String)
  | noOperations (rule : String)
  | notSingle (operation : String)
deriving DecidableEq, Repr

/-- Why a rule set was refused. -/
inductive RuleError where
  | unknownFunction (rule name : String)
  | arityMismatch (rule name : String) (expected found : Nat)
  | invalidPattern (pattern : String) (fault : PatternFault)
  | conflictingVariable (pattern existing found : String)
  | conditionSyntax (rule : String) (offset : Nat) (fault : Condition.Fault)
  | invalidRuleSet (fault : RuleSetFault)
deriving DecidableEq, Repr

namespace RuleError

/-- The error of a condition in a rule. -/
def ofCondition
    (rule : String) :
    Condition.Error → RuleError
  | .fault offset fault => conditionSyntax rule offset fault
  | .unknownFunction name => unknownFunction rule name
  | .arity name expected found => arityMismatch rule name expected found

/-- The stable code of an error. -/
def code : RuleError → String
  | unknownFunction .. => "UNKNOWN_FUNCTION"
  | arityMismatch .. => "ARITY_MISMATCH"
  | invalidPattern .. => "INVALID_PATH_PATTERN"
  | conflictingVariable .. => "CONFLICTING_VARIABLE"
  | conditionSyntax .. => "CONDITION_SYNTAX"
  | invalidRuleSet _ => "INVALID_RULE_SET"

/-- The error in words; an unreadable text has none of its own. -/
def message? : RuleError → Option String
  | unknownFunction rule name =>
      some ("Rule '" ++ rule ++ "' calls unknown function '" ++ name ++ "'")
  | arityMismatch rule name expected found =>
      some ("Rule '" ++ rule ++ "' calls " ++ name ++ "() with " ++ toString found
        ++ " arguments, expected " ++ toString expected)
  | invalidPattern pattern fault =>
      some ("Invalid path pattern '" ++ pattern ++ "': " ++ fault.message)
  | conflictingVariable pattern existing found =>
      some ("Pattern '" ++ pattern ++ "' binds '\x7b" ++ found
        ++ "\x7d' where another rule binds '\x7b" ++ existing ++ "\x7d'")
  | conditionSyntax rule offset fault =>
      some ("Syntax error in rule '" ++ rule ++ "' at offset " ++ toString offset
        ++ ": " ++ fault.message)
  | invalidRuleSet .unreadable => none
  | invalidRuleSet (.unknownOperation rule operation) =>
      some ("Invalid rule set: rule '" ++ rule ++ "' names unknown operation '"
        ++ operation ++ "'")
  | invalidRuleSet (.noOperations rule) =>
      some ("Invalid rule set: rule '" ++ rule ++ "' governs no operations")
  | invalidRuleSet (.notSingle operation) =>
      some ("Invalid rule set: '" ++ operation ++ "' is not a single operation")

end RuleError

/-- The single kind of access that a request names. -/
def AccessKind.parse (name : String) : Except RuleError AccessKind :=
  match AccessKind.single? name with
  | some kind => .ok kind
  | none => .error (.invalidRuleSet (.notSingle name))

end DocumentStore
