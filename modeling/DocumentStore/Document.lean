import DocumentStore.Json.Record
import DocumentStore.Path
import DocumentStore.Timestamp

/-!
# Documents

A document is a JSON payload at a path, with a version that starts at 1 and
the times of its creation and last change.  Its fields, for indexing and for
access conditions, are those of the payload; the names of its own data stand
behind them.
-/

namespace DocumentStore

/-- A stored document. -/
structure Document where
  id : String
  path : DocumentPath
  collection : String
  data : Json
  version : Nat
  createdAt : Timestamp
  updatedAt : Timestamp
  tenant : String
deriving DecidableEq

namespace Document

/-- The first version of a document. -/
def new
    (path : DocumentPath)
    (data : Json)
    (tenant : String)
    (now : Timestamp) :
    Document where
  id := path.id
  path
  collection := path.collection
  data
  version := 1
  createdAt := now
  updatedAt := now
  tenant

/-- The value at a dotted name, found by walking down nested objects. -/
def lookup?
    (value : Json)
    (name : String) :
    Option Json :=
  value.walk? (Text.pieces '.' name)

/--
The value of a field.  A name that the payload does not have may be `id`,
`createdAt`, `updatedAt` or `version`, which then is the document's own.
-/
def field?
    (d : Document)
    (name : String) :
    Option Json :=
  match lookup? d.data name with
  | some value => some value
  | none =>
      if name = "id" then some (.string d.id)
      else if name = "createdAt" then some (.string d.createdAt.toText)
      else if name = "updatedAt" then some (.string d.updatedAt.toText)
      else if name = "version" then some (.ofNat d.version)
      else none

/--
A patch laid over a payload: if both are objects, the members of the patch
replace those of the payload; otherwise the patch replaces the payload.
-/
def overlay : (base patch : Json) → Json
  | .object base, .object patch =>
      .object (patch.foldl (fun acc m => Json.setMember m.1 m.2 acc) base)
  | _, patch => patch

/-- The next version of a document. -/
def revise
    (d : Document)
    (data : Json)
    (merge : Bool)
    (now : Timestamp) :
    Document :=
  { d with
    data := if merge then overlay d.data data else data
    version := d.version + 1
    updatedAt := now }

/-- The written form of a document. -/
def toJson (d : Document) : Json :=
  .object
    [("collection", .string d.collection),
     ("createdAt", .string d.createdAt.toShortText),
     ("data", d.data),
     ("id", .string d.id),
     ("path", .string d.path.text),
     ("tenantId", .string d.tenant),
     ("updatedAt", .string d.updatedAt.toShortText),
     ("version", .ofNat d.version)]

end Document

/-- A path from its written form. -/
def DocumentPath.ofJson? : Json → Option DocumentPath
  | .string s => (DocumentPath.parse s).toOption
  | _ => none

/-- A timestamp from its written form. -/
def Timestamp.ofJson? : Json → Option Timestamp
  | .string s => Timestamp.parse? s
  | _ => none

/-- A document from its written form. -/
def Document.ofJson? (v : Json) : Option Document := do
  match ← v.slots? .refused
      [["id"], ["path"], ["collection"], ["data"], ["version"], ["createdAt"],
       ["updatedAt"], ["tenantId"]] with
  | [id, path, collection, data, version, createdAt, updatedAt, tenant] =>
      some
        { id := ← Json.required Json.asString? id
          path := ← Json.required DocumentPath.ofJson? path
          collection := ← Json.required Json.asString? collection
          data := ← data
          version := (← Json.required Json.asWord? version).toNat
          createdAt := ← Json.required Timestamp.ofJson? createdAt
          updatedAt := ← Json.required Timestamp.ofJson? updatedAt
          tenant := ← Json.required Json.asString? tenant }
  | _ => none

end DocumentStore
