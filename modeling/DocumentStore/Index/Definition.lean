import DocumentStore.Json.Record
import DocumentStore.Text.Pieces

/-!
# Index definitions

An index sorts the documents of one collection by a list of fields, each
ascending or descending.  In a normal definition the tenant field comes first,
no field occurs twice, and the names are not empty.
-/

namespace DocumentStore

/-- Ascending or descending. -/
inductive Direction where
  | asc
  | desc
deriving DecidableEq, Repr, Inhabited

namespace Direction

/-- The written name. -/
def name : Direction → String
  | asc => "asc"
  | desc => "desc"

/-- The written form. -/
def toJson (d : Direction) : Json := .string d.name

/-- A direction from its written form. -/
def ofJson?
    (place : Json.Place)
    (v : Json) :
    Option Direction :=
  match v.choice? place with
  | some "asc" => some asc
  | some "desc" => some desc
  | _ => none

end Direction

/-- A field with a direction: one part of an index or of an order. -/
structure SortField where
  field : String
  direction : Direction
deriving DecidableEq, Repr

namespace SortField

/-- Field and direction in words. -/
def describe (f : SortField) : String :=
  f.field ++ " " ++ f.direction.name

/-- The written form. -/
def toJson (f : SortField) : Json :=
  .object [("direction", f.direction.toJson), ("field", .string f.field)]

/-- A field from its written form; the direction is ascending by default. -/
def ofJson?
    (place : Json.Place)
    (v : Json) :
    Option SortField := do
  match ← v.slots? .refused [["field"], ["direction"]] with
  | [field, direction] =>
      some
        { field := ← Json.required Json.asString? field
          direction := ← Json.withDefault .asc (Direction.ofJson? place) direction }
  | _ => none

end SortField

/-- Several fields in words. -/
def describeFields (fields : List SortField) : String :=
  Text.joined ", " (fields.map SortField.describe)

/-- What is wrong with an index definition. -/
inductive DefinitionFault where
  | emptyName
  | badCollection (collection : String)
  | emptyField (index : String)
  | repeatedField (field index : String)
  | tenantNotFirst (field index : String) (position : Nat)
deriving DecidableEq, Repr

/-- The fault in words. -/
def DefinitionFault.message : DefinitionFault → String
  | emptyName => "index name is empty"
  | badCollection collection => "'" ++ collection ++ "' is not a collection name"
  | emptyField index => "index '" ++ index ++ "' has an empty field name"
  | repeatedField field index =>
      "field '" ++ field ++ "' appears twice in index '" ++ index ++ "'"
  | tenantNotFirst field index position =>
      "tenant field '" ++ field ++ "' must be first in index '" ++ index
        ++ "', found at position " ++ toString position

/-- A named index on a collection. -/
structure IndexDefinition where
  name : String
  collection : String
  fields : List SortField
deriving DecidableEq, Repr

namespace IndexDefinition

/-- The names of the fields in order. -/
def fieldNames (d : IndexDefinition) : List String :=
  d.fields.map SortField.field

/-- The definition in words. -/
def describe (d : IndexDefinition) : String :=
  d.name ++ " on " ++ d.collection ++ " (" ++ describeFields d.fields ++ ")"

/-- The first fault among the fields, given the names before them. -/
def fieldFault?
    (index : String)
    (seen : List String) :
    List SortField → Option DefinitionFault
  | [] => none
  | f :: rest =>
      if f.field = "" then some (.emptyField index)
      else if f.field ∈ seen then some (.repeatedField f.field index)
      else fieldFault? index (f.field :: seen) rest

/-- Check a definition and put the tenant field in front if it is missing. -/
def normalized
    (d : IndexDefinition)
    (tenantField : String) :
    Except DefinitionFault IndexDefinition :=
  if Text.blankOnly d.name then .error .emptyName
  else if Text.blankOnly d.collection ∨ '/' ∈ d.collection.toList then
    .error (.badCollection d.collection)
  else
    match fieldFault? d.name [] d.fields with
    | some fault => .error fault
    | none =>
        match d.fieldNames.idxOf? tenantField with
        | some 0 => .ok d
        | some position => .error (.tenantNotFirst tenantField d.name position)
        | none => .ok { d with fields := ⟨tenantField, .asc⟩ :: d.fields }

/-- The written form. -/
def toJson (d : IndexDefinition) : Json :=
  .object
    [("collection", .string d.collection),
     ("fields", .array (d.fields.map SortField.toJson)),
     ("name", .string d.name)]

/-- A definition from its written form. -/
def ofJson? (v : Json) : Option IndexDefinition := do
  match ← v.slots? .refused [["name"], ["collection"], ["fields"]] with
  | [name, collection, fields] =>
      some
        { name := ← Json.required Json.asString? name
          collection := ← Json.required Json.asString? collection
          fields := ← Json.required (Json.asList? (SortField.ofJson? .outer)) fields }
  | _ => none

end IndexDefinition
end DocumentStore
