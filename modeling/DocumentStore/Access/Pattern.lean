import DocumentStore.Access.Error
import DocumentStore.Path

/-!
# Path patterns

A pattern is a chain of segments, each a literal or a variable in braces.  A
literal holds no braces and no blanks; the name of a variable is a word, and
no variable occurs twice.
-/

namespace DocumentStore

/-- A segment of a pattern. -/
inductive Segment where
  | literal (text : String)
  | capture (name : String)
deriving DecidableEq, Repr

namespace Segment

/-- Characters that start the name of a variable. -/
def isNameStart (c : Char) : Bool :=
  c.isAlpha || c = '_'

/-- Characters that continue the name of a variable. -/
def isNameChar (c : Char) : Bool :=
  c.isAlphanum || c = '_'

/-- Whether a text is the name of a variable. -/
def isName : List Char → Bool
  | [] => false
  | c :: rest => isNameStart c && rest.all isNameChar

/-- Whether a character may stand in a literal. -/
def isLiteralChar (c : Char) : Bool :=
  c != '\x7b' && c != '\x7d' && c != '/' && !Text.isBlank c

/-- The text between the braces, if a text is in braces. -/
def braced? : List Char → Option (List Char)
  | '\x7b' :: rest =>
      match rest.reverse with
      | '\x7d' :: inner => some inner.reverse
      | _ => none
  | _ => none

/-- The segment that a text stands for. -/
def ofText? (cs : List Char) : Option Segment :=
  match (braced? cs).filter isName with
  | some name => some (capture (String.ofList name))
  | none =>
      if cs ≠ [] ∧ cs.all isLiteralChar then some (literal (String.ofList cs)) else none

/-- The name of a variable. -/
def name? : Segment → Option String
  | capture name => some name
  | literal _ => none

end Segment

/-- The segments of a pattern. -/
abbrev Pattern := List Segment

namespace Pattern

/-- The variables of a pattern in order. -/
def captureNames (p : Pattern) : List String :=
  p.filterMap Segment.name?

/-- Read segments one after the other, given the variables before them. -/
def ofTexts
    (seen : List String) :
    List (List Char) → Except PatternFault Pattern
  | [] => .ok []
  | cs :: rest =>
      match Segment.ofText? cs with
      | none => .error (.badSegment (String.ofList cs))
      | some segment =>
          match segment.name? with
          | some name =>
              if name ∈ seen then .error (.boundTwice name)
              else (ofTexts (name :: seen) rest).map (segment :: ·)
          | none => (ofTexts seen rest).map (segment :: ·)

/-- Read a pattern; slashes at its ends are ignored. -/
def parse (text : String) : Except PatternFault Pattern :=
  let trimmed := Text.trim isSlash text.toList
  if trimmed = [] then .error .emptyPattern
  else ofTexts [] (Text.splitAt '/' trimmed)

end Pattern
end DocumentStore
