import DocumentStore.Index.Definition
import DocumentStore.Json.Printer

/-!
# Queries

A query names a collection and gives conditions on fields, an order and a
limit.  It is answered for one tenant.
-/

namespace DocumentStore

/-- How a field is compared with a value. -/
inductive FilterOp where
  | eq
  | lt
  | le
  | gt
  | ge
deriving DecidableEq, Repr

namespace FilterOp

/-- The written sign. -/
def sign : FilterOp → String
  | eq => "=="
  | lt => "<"
  | le => "<="
  | gt => ">"
  | ge => ">="

/-- Whether the comparison pins the field to one value. -/
def isEquality (op : FilterOp) : Bool := op = eq

/-- Whether the comparison leaves a range of values. -/
def isRange (op : FilterOp) : Bool := !op.isEquality

/-- Whether the value bounds the field from below. -/
def isLowerBound (op : FilterOp) : Bool := op = gt || op = ge

/-- A comparison from its written form. -/
def ofJson?
    (place : Json.Place)
    (v : Json) :
    Option FilterOp :=
  match v.choice? place with
  | some "==" => some eq
  | some "<" => some lt
  | some "<=" => some le
  | some ">" => some gt
  | some ">=" => some ge
  | _ => none

end FilterOp

/-- A condition on one field. -/
structure WhereClause where
  field : String
  op : FilterOp
  value : Json
deriving DecidableEq

namespace WhereClause

/-- The condition in words. -/
def describe (c : WhereClause) : String :=
  c.field ++ " " ++ c.op.sign ++ " " ++ c.value.compact

/-- The written form. -/
def toJson (c : WhereClause) : Json :=
  .object [("field", .string c.field), ("op", .string c.op.sign), ("value", c.value)]

/-- A condition from its written form. -/
def ofJson?
    (place : Json.Place)
    (v : Json) :
    Option WhereClause := do
  match ← v.slots? .refused [["field"], ["op"], ["value"]] with
  | [field, op, value] =>
      some
        { field := ← Json.required Json.asString? field
          op := ← Json.required (FilterOp.ofJson? place) op
          value := ← value }
  | _ => none

end WhereClause

/-- A query, without the tenant it is answered for. -/
structure Query where
  collection : String
  filters : List WhereClause
  order : List SortField
  limit : Option UInt64
deriving DecidableEq

namespace Query

/-- A query from its written fields. -/
def ofJson?
    (place : Json.Place)
    (v : Json) :
    Option Query := do
  match ← v.slots? .refused [["collection"], ["where"], ["orderBy"], ["limit"]] with
  | [collection, filters, order, limit] =>
      some
        { collection := ← Json.required Json.asString? collection
          filters := ← Json.withDefault [] (Json.asList? (WhereClause.ofJson? place)) filters
          order := ← Json.withDefault [] (Json.asList? (SortField.ofJson? place)) order
          limit := ← Json.optional Json.asWord? limit }
  | _ => none

end Query

/-- A query for a tenant. -/
structure QuerySpec extends Query where
  tenant : String
deriving DecidableEq

namespace QuerySpec

/-- The written form. -/
def toJson (q : QuerySpec) : Json :=
  .object
    [("collection", .string q.collection),
     ("limit", Json.ofOption Json.ofWord q.limit),
     ("orderBy", .array (q.order.map SortField.toJson)),
     ("tenant", .string q.tenant),
     ("where", .array (q.filters.map WhereClause.toJson))]

/-- A query from its written form. -/
def ofJson? (v : Json) : Option QuerySpec := do
  match ← v.slots? .refused [["collection"], ["tenant"], ["where"], ["orderBy"], ["limit"]] with
  | [collection, tenant, filters, order, limit] =>
      some
        { collection := ← Json.required Json.asString? collection
          tenant := ← Json.required Json.asString? tenant
          filters := ← Json.withDefault [] (Json.asList? (WhereClause.ofJson? .outer)) filters
          order := ← Json.withDefault [] (Json.asList? (SortField.ofJson? .outer)) order
          limit := ← Json.optional Json.asWord? limit }
  | _ => none

end QuerySpec
end DocumentStore
