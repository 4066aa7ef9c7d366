import DocumentStore.Index.Tree
import DocumentStore.Query.Shape

/-!
# Query plans

A plan names the index that serves a query, the window of its keys to scan and
the conditions to check on every key in the window.  Of the indexes that serve
a query, one with the highest score is chosen, and of several the one whose
name comes first.
-/

namespace DocumentStore

/-- A condition on the value at a position of a key. -/
structure KeyCheck where
  position : Nat
  op : FilterOp
  value : KeyValue
deriving DecidableEq, Repr

/-- Whether a key meets a condition.  Values of different kinds are in no range of each other. -/
def KeyCheck.admits
    (c : KeyCheck)
    (key : Key) :
    Bool :=
  match key[c.position]? with
  | none => false
  | some part =>
      let order := part.value.order c.value
      match c.op with
      | .eq => part.value = c.value
      | .lt => part.value.sameKind c.value && order == .lt
      | .le => part.value.sameKind c.value && order != .gt
      | .gt => part.value.sameKind c.value && order == .gt
      | .ge => part.value.sameKind c.value && order != .lt

/-- The keys to scan: those that begin with given parts and go on between two bounds. -/
structure KeyWindow where
  start : Key
  lower : Option KeyPart
  upper : Option KeyPart
deriving DecidableEq, Repr

/-- How a query is answered. -/
structure Plan where
  index : String
  collection : String
  tenant : String
  score : Nat
  equality : List String
  range : Option String
  order : List SortField
  limit : Option UInt64
  window : KeyWindow
  checks : List KeyCheck
  /-- Some condition compares with a value that has no place in a key. -/
  unsatisfiable : Bool
deriving DecidableEq

namespace Plan

/-- The plan in words. -/
def describe (p : Plan) : String :=
  let range :=
    match p.range with
    | some field => " range " ++ field
    | none => ""
  let order := if p.order.isEmpty then "" else " order [" ++ describeFields p.order ++ "]"
  let limit :=
    match p.limit with
    | some n => " limit " ++ toString n.toNat
    | none => ""
  "INDEX SCAN " ++ p.index ++ " on " ++ p.collection ++ " (score " ++ toString p.score
    ++ ") eq [" ++ Text.joined ", " p.equality ++ "]" ++ range ++ order ++ limit

/-- Whether a key meets every condition of the plan. -/
def admits
    (p : Plan)
    (key : Key) :
    Bool :=
  p.checks.all fun c => c.admits key

/-- The value to which the first equality on a field pins it, as a part of a key. -/
def pinnedPart?
    (clauses : List WhereClause)
    (f : SortField) :
    Option KeyPart :=
  match clauses.find? fun c => c.op.isEquality && c.field = f.field with
  | none => none
  | some c => (KeyValue.ofJson? c.value).map fun v => ⟨v, f.direction⟩

/-- The condition of a clause on the keys of an index. -/
def checkOf?
    (fields : List SortField)
    (c : WhereClause) :
    Option KeyCheck :=
  match fields.findIdx? fun f => f.field = c.field, KeyValue.ofJson? c.value with
  | some position, some value => some ⟨position, c.op, value⟩
  | _, _ => none

/-- The bounds that a range condition sets on a part of the key. -/
def boundsOf
    (range : WhereClause)
    (direction : Direction) :
    Option KeyPart × Option KeyPart :=
  let bound := (KeyValue.ofJson? range.value).map fun v => (⟨v, direction⟩ : KeyPart)
  match range.op.isLowerBound, direction with
  | true, .asc | false, .desc => (bound, none)
  | false, .asc | true, .desc => (none, bound)

/-- The plan that answers a query with a given index. -/
def onIndex
    (spec : QuerySpec)
    (shape : Shape)
    (definition : IndexDefinition)
    (score : Nat) :
    Plan :=
  let pinned := shape.equality.length
  let block := (definition.fields.drop 1).take pinned
  let rest := (definition.fields.drop 1).drop pinned
  let tenantPart : Key :=
    (definition.fields.take 1).map fun f => ⟨.string spec.tenant, f.direction⟩
  let bounds :=
    match shape.range?, rest.head? with
    | some range, some f => boundsOf range f.direction
    | _, _ => (none, none)
  { index := definition.name
    collection := spec.collection
    tenant := spec.tenant
    score
    equality := block.map SortField.field
    range := shape.range?.map WhereClause.field
    order := shape.order
    limit := spec.limit
    window :=
      { start := tenantPart ++ block.filterMap (pinnedPart? shape.clauses)
        lower := bounds.1
        upper := bounds.2 }
    checks := shape.clauses.filterMap (checkOf? definition.fields)
    unsatisfiable :=
      shape.clauses.any fun c => (checkOf? definition.fields c).isNone }

/-- The better of two indexes that serve a query. -/
def better
    (best : Option (Nat × IndexDefinition))
    (candidate : Nat × IndexDefinition) :
    Option (Nat × IndexDefinition) :=
  match best with
  | none => some candidate
  | some current =>
      if current.1 < candidate.1 ∨
          (candidate.1 = current.1 ∧ candidate.2.name < current.2.name) then
        some candidate
      else
        some current

/-- The indexes of a collection that serve a shape, with their scores. -/
def candidates
    (shape : Shape)
    (collection tenantField : String)
    (definitions : List IndexDefinition) :
    List (Nat × IndexDefinition) :=
  (definitions.filter fun d => d.collection = collection).filterMap fun d =>
    (shape.score? tenantField d).map fun score => (score, d)

/-- Plan a query with the indexes at hand. -/
def ofSpec
    (spec : QuerySpec)
    (definitions : List IndexDefinition)
    (tenantField : String) :
    Except IndexError Plan :=
  match Shape.ofSpec spec tenantField with
  | .error fault => .error (.invalidQuery fault)
  | .ok shape =>
      let suggested := shape.suggest spec.collection tenantField
      if 1 < shape.ranges.length then
        .error
          (.notIndexed spec.collection
            (.severalRanges (shape.ranges.map WhereClause.field)) suggested)
      else
        let served := candidates shape spec.collection tenantField definitions
        match served.foldl better none with
        | none =>
            .error (.notIndexed spec.collection (.noIndex suggested.fields) suggested)
        | some (score, definition) => .ok (onIndex spec shape definition score)

end Plan
end DocumentStore
