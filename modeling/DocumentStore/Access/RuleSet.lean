import DocumentStore.Access.Condition.Parser
import DocumentStore.Access.Router
import DocumentStore.Json.Parser
import DocumentStore.Toml.Parser

/-!
# Rule sets

Rules are declared as data, in JSON or TOML, and compiled once.  A rule has a
path pattern, the operations it governs, a condition and a priority; of the
rules with one pattern those with smaller priority are tried first, and of
equal ones the one declared first.
-/

namespace DocumentStore

/-- A rule as it is declared. -/
structure RuleDefinition where
  name : Option String
  path : String
  operations : List String
  condition : String
  priority : Int32
deriving DecidableEq

/-- A rule ready for use. -/
structure Rule where
  name : String
  pattern : String
  operations : List AccessKind
  priority : Int32
  condition : Condition

namespace RuleDefinition

/-- An integer of 32 bits. -/
def asPriority? : Json → Option Int32
  | .number (.integer i) =>
      if -0x80000000 ≤ i ∧ i < 0x80000000 then some (Int32.ofInt i) else none
  | _ => none

/-- The written form. -/
def toJson (d : RuleDefinition) : Json :=
  .object
    [("condition", .string d.condition),
     ("name", Json.ofOption .string d.name),
     ("operations", .array (d.operations.map .string)),
     ("path", .string d.path),
     ("priority", .number (.integer d.priority.toInt))]

/-- The fields in their order, each with the names it may carry. -/
def fields : List (List String) :=
  [["name"], ["path", "match"], ["operations"], ["condition"], ["priority"]]

/-- A rule from its written form. -/
def ofJson?
    (surplus : Json.Surplus)
    (v : Json) :
    Option RuleDefinition := do
  match ← v.slots? surplus fields with
  | [name, path, operations, condition, priority] =>
      some
        { name := ← Json.optional Json.asString? name
          path := ← Json.required Json.asString? path
          operations := ← Json.required (Json.asList? Json.asString?) operations
          condition := ← Json.required Json.asString? condition
          priority := ← Json.withDefault 0 asPriority? priority }
  | _ => none

/-- The kinds of access that declared operations stand for, each once. -/
def kinds
    (rule : String) :
    (sofar : List AccessKind) → List String → Except RuleSetFault (List AccessKind)
  | sofar, [] => .ok sofar
  | sofar, operation :: rest =>
      match AccessKind.expand? operation with
      | none => .error (.unknownOperation rule operation)
      | some expanded =>
          kinds rule (sofar ++ expanded.filter fun k => k ∉ sofar) rest

/-- The rule of a definition at a position, with its pattern. -/
def compile
    (position : Nat)
    (d : RuleDefinition) :
    Except RuleError (Pattern × Rule) :=
  let name := d.name.getD ("rule-" ++ toString position)
  match Pattern.parse d.path with
  | .error fault => .error (.invalidPattern d.path fault)
  | .ok pattern =>
      match kinds name [] d.operations with
      | .error fault => .error (.invalidRuleSet fault)
      | .ok [] => .error (.invalidRuleSet (.noOperations name))
      | .ok operations =>
          match Condition.parse d.condition pattern.captureNames with
          | .error e => .error (.ofCondition name e)
          | .ok condition =>
              .ok (pattern, ⟨name, d.path, operations, d.priority, condition⟩)

end RuleDefinition

namespace Rule

/-- Whether a rule says anything about a kind of access. -/
def governs
    (r : Rule)
    (kind : AccessKind) :
    Bool :=
  r.operations.contains kind

/-- Put a rule behind those of the same and of smaller priority. -/
def place (rule : Rule) : List Rule → List Rule
  | [] => [rule]
  | r :: rest =>
      if rule.priority.toInt < r.priority.toInt then rule :: r :: rest
      else r :: place rule rest

end Rule

/-- A compiled rule set: the rules as declared, and the tree that finds them. -/
structure RuleSet where
  rules : List Rule
  router : Router Rule

namespace RuleSet

/-- The set without rules. -/
def empty : RuleSet := ⟨[], Router.empty⟩

/-- Compile the definitions from a position on and add them to a set. -/
def extend
    (set : RuleSet) :
    (position : Nat) → List RuleDefinition → Except RuleError RuleSet
  | _, [] => .ok set
  | position, d :: rest =>
      match d.compile position with
      | .error e => .error e
      | .ok (pattern, rule) =>
          match set.router.insert Rule.place rule pattern with
          | .error (existing, found) => .error (.conflictingVariable d.path existing found)
          | .ok router => extend ⟨set.rules ++ [rule], router⟩ (position + 1) rest

/-- Compile a list of definitions. -/
def compile (definitions : List RuleDefinition) : Except RuleError RuleSet :=
  extend empty 0 definitions

/-- The definitions in a written rule set. -/
def definitions?
    (surplus : Json.Surplus)
    (v : Json) :
    Option (List RuleDefinition) := do
  match ← v.slots? surplus [["rules"]] with
  | [rules] => Json.withDefault [] (Json.asList? (RuleDefinition.ofJson? surplus)) rules
  | _ => none

/-- The part of a rule set in JSON that is read: the fields of the set and of its rules. -/
def fields? (s : Json.Source) : Option Json :=
  let rule := Json.Source.record? RuleDefinition.fields.flatten Json.Source.toJson?
  Json.Source.record? ["rules"] (Json.Source.list? rule) s

/-- Compile the definitions that were read from a text, if they could be. -/
def ofRead : Option (List RuleDefinition) → Except RuleError RuleSet
  | none => .error (.invalidRuleSet .unreadable)
  | some definitions => compile definitions

/-- Compile a rule set in JSON. -/
def ofJsonText (text : String) : Except RuleError RuleSet :=
  ofRead (((Json.Source.parse? text).bind fields?).bind (definitions? .refused))

/-- Compile a rule set in TOML. -/
def ofTomlText (text : String) : Except RuleError RuleSet :=
  ofRead (((Toml.parse? text).map Toml.Value.toJson).bind (definitions? .ignored))

end RuleSet
end DocumentStore
