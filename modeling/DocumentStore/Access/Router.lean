import DocumentStore.Access.Condition.Eval
import DocumentStore.Access.Pattern

/-!
# Routing paths to rules

The rules of a set are found by walking the segments of a path down a tree of
patterns.  At each node a literal segment goes before the variable one; when
no rule lies at the end of the literal way, the variable way is tried.  The
rules at a node have the same pattern and are in the order in which they are
tried.
-/

namespace DocumentStore

universe u

/-- A tree of patterns with rules at its nodes. -/
inductive Router (α : Type u) where
  | node
      (literals : List (String × Router α))
      (capture : Option (String × Router α))
      (rules : List α)

namespace Router

variable {α : Type u}

/-- The tree without patterns. -/
def empty : Router α := node [] none []

/-- Set the child of a literal. -/
def setLiteral
    (label : String)
    (child : Router α) :
    List (String × Router α) → List (String × Router α)
  | [] => [(label, child)]
  | (l, c) :: rest =>
      if l = label then (label, child) :: rest
      else (l, c) :: setLiteral label child rest

/--
Enter a rule under a pattern; `place` puts it among the rules that have the
same pattern.  Two patterns that agree up to a variable must give it the same
name; otherwise the two names are returned, the one in the tree first.
-/
def insert
    (place : α → List α → List α)
    (rule : α) :
    Pattern → Router α → Except (String × String) (Router α)
  | [], node literals capture rules => .ok (node literals capture (place rule rules))
  | .literal label :: rest, node literals capture rules =>
      match insert place rule rest ((literals.lookup label).getD empty) with
      | .error e => .error e
      | .ok child => .ok (node (setLiteral label child literals) capture rules)
  | .capture name :: rest, node literals capture rules =>
      let (existing, child) := capture.getD (name, empty)
      if existing = name then
        match insert place rule rest child with
        | .error e => .error e
        | .ok child => .ok (node literals (some (name, child)) rules)
      else
        .error (existing, name)

/-- The rules for a path, with the segments that its variables stand for. -/
def route? :
    List String → Router α → Option (Bindings × List α)
  | [], node _ _ rules => if rules.isEmpty then none else some ([], rules)
  | head :: rest, node literals capture _ =>
      let literalWay :=
        match literals.lookup head with
        | some child => route? rest child
        | none => none
      match literalWay, capture with
      | some hit, _ => some hit
      | none, none => none
      | none, some (name, child) =>
          match route? rest child with
          | some (bindings, rules) => some ((name, head) :: bindings, rules)
          | none => none

end Router
end DocumentStore
