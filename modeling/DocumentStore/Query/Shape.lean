import DocumentStore.Index.Error
import DocumentStore.Query.Spec

/-!
# The shape of a query

What matters for the choice of an index: the fields pinned by equality, the
range conditions on other fields, and the order that remains to be produced.
An index serves a shape when its fields are the tenant field, the pinned
fields in any order, the range field, and then the order.  Every shape has an
index that would serve it.
-/

namespace DocumentStore

/-- The fields of a query by the part they play. -/
structure Shape where
  /-- Fields pinned by equality, each once. -/
  equality : List String
  /-- Range conditions on fields that are not pinned. -/
  ranges : List WhereClause
  /-- The order, without the tenant field and the pinned fields. -/
  order : List SortField
  /-- All conditions other than those on the tenant field. -/
  clauses : List WhereClause
deriving DecidableEq

namespace Shape

/-- The first field that occurs again among some fields and those seen before. -/
def repeated?
    (seen : List String) :
    List SortField → Option String
  | [] => none
  | f :: rest =>
      if f.field ∈ seen then some f.field
      else repeated? (f.field :: seen) rest

/-- Whether a condition on the tenant field asks for anything but the tenant itself. -/
def foreignTenant
    (tenantField tenant : String)
    (c : WhereClause) :
    Bool :=
  c.field = tenantField && !(c.op.isEquality && c.value = .string tenant)

/-- The shape of a query, or what is wrong with the query. -/
def ofSpec
    (spec : QuerySpec)
    (tenantField : String) :
    Except QueryFault Shape :=
  if spec.collection = "" ∨ '/' ∈ spec.collection.toList then
    .error (.badCollection spec.collection)
  else if spec.tenant = "" then
    .error .noTenant
  else if spec.filters.any (foreignTenant tenantField spec.tenant) then
    .error (.tenantClause tenantField spec.tenant)
  else
    let clauses := spec.filters.filter fun c => c.field ≠ tenantField
    let equality := ((clauses.filter fun c => c.op.isEquality).map WhereClause.field).eraseDups
    let ranges := clauses.filter fun c => c.op.isRange && c.field ∉ equality
    let order := spec.order.filter fun o => o.field ≠ tenantField && o.field ∉ equality
    match repeated? [] order with
    | some field => .error (.repeatedOrder field)
    | none =>
        match ranges.head? with
        | some range =>
            if (order.drop 1).any fun o => o.field = range.field then
              .error (.rangeNotFirst range.field)
            else
              .ok { equality, ranges, order, clauses }
        | none => .ok { equality, ranges, order, clauses }

/-- The range condition that an index has to serve. -/
def range? (s : Shape) : Option WhereClause :=
  s.ranges.head?

/-- Whether the order starts with the range field. -/
def rangeLeadsOrder (s : Shape) : Bool :=
  match s.range?, s.order.head? with
  | some range, some first => range.field = first.field
  | _, _ => false

/-- The score of each field pinned by equality. -/
def equalityScore : Nat := 10

/-- The score of the range field. -/
def rangeScore : Nat := 5

/-- The score of each field of the order. -/
def orderScore : Nat := 3

/-- The score of an order that fields start with. -/
def scoreOrder? :
    (order fields : List SortField) → Option Nat
  | [], _ => some 0
  | _ :: _, [] => none
  | o :: order, f :: fields =>
      if f = o then (scoreOrder? order fields).map (orderScore + ·) else none

/-- The score of the fields that follow the pinned ones. -/
def scoreRest?
    (s : Shape)
    (fields : List SortField) :
    Option Nat :=
  match s.range?, fields with
  | none, fields => scoreOrder? s.order fields
  | some _, [] => none
  | some range, f :: rest =>
      if f.field ≠ range.field then none
      else if s.rangeLeadsOrder then
        match s.order with
        | [] => none
        | o :: order =>
            if f.direction = o.direction then
              (scoreOrder? order rest).map (rangeScore + orderScore + ·)
            else none
      else (scoreOrder? s.order rest).map (rangeScore + ·)

/-- The score of an index for a shape; none if it does not serve it. -/
def score?
    (s : Shape)
    (tenantField : String)
    (definition : IndexDefinition) :
    Option Nat :=
  match definition.fields with
  | [] => none
  | first :: rest =>
      let block := rest.take s.equality.length
      if first.field ≠ tenantField then none
      else if rest.length < s.equality.length then none
      else if s.equality.all fun e => block.any fun f => f.field = e then
        (s.scoreRest? (rest.drop s.equality.length)).map
          (equalityScore * s.equality.length + ·)
      else none

/-- The fields of an index that serves the shape. -/
def wantedFields
    (s : Shape)
    (tenantField : String) :
    List SortField :=
  let range : List SortField :=
    match s.range? with
    | some range => if s.rangeLeadsOrder then [] else [⟨range.field, .asc⟩]
    | none => []
  ⟨tenantField, .asc⟩ :: (s.equality.map fun e => ⟨e, .asc⟩) ++ range ++ s.order

/-- The part of the name of a suggested index that stands for a field. -/
def nameOf (f : SortField) : String :=
  "_" ++ f.field ++ (match f.direction with | .asc => "" | .desc => "_desc")

/-- An index that serves the shape, named after its collection and fields. -/
def suggest
    (s : Shape)
    (collection tenantField : String) :
    IndexDefinition :=
  let fields := s.wantedFields tenantField
  ⟨Text.joined "" (collection :: fields.map nameOf), collection, fields⟩

end Shape
end DocumentStore
