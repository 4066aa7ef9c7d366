import DocumentStore.Access.Kind
import DocumentStore.Query.Spec
import DocumentStore.Store.Transaction

/-!
# Operations

What can be asked of the database.  The tenant is not part of an operation; it
comes with the request.  The paths of single writes are read when they are
carried out, those of a commit when the operation is read.
-/

namespace DocumentStore

/-- An operation on the database. -/
inductive Operation where
  | get (path : String)
  | create (path : String) (data : Json) (key : Option String)
  | update
      (path : String)
      (data : Json)
      (ifVersion : Option UInt64)
      (merge : Bool)
      (key : Option String)
  | delete (path : String) (ifVersion : Option UInt64) (key : Option String)
  | query (query : Query)
  | explain (query : Query)
  | commit (transaction : Option String) (reads : List ReadVersion) (writes : List Write)
deriving DecidableEq

namespace Operation

/-- The name of the operation. -/
def name : Operation → String
  | get _ => "get"
  | create .. => "create"
  | update .. => "update"
  | delete .. => "delete"
  | query _ => "query"
  | explain _ => "explain"
  | commit .. => "commit"

/-- The kind of access that the operation needs; a commit needs several. -/
def access? : Operation → Option AccessKind
  | get _ => some .get
  | create .. => some .create
  | update .. => some .update
  | delete .. => some .delete
  | query _ | explain _ => some .list
  | commit .. => none

/-- The names of the operations. -/
def names : List String :=
  ["get", "create", "update", "delete", "query", "explain", "commit"]

/-- The written form of a query operation. -/
def queryToJson
    (name : String)
    (q : Query) :
    Json :=
  .object
    [("collection", .string q.collection),
     ("limit", Json.ofOption Json.ofWord q.limit),
     ("op", .string name),
     ("orderBy", .array (q.order.map SortField.toJson)),
     ("where", .array (q.filters.map WhereClause.toJson))]

/-- The written form. -/
def toJson : Operation → Json
  | get path => .object [("op", .string "get"), ("path", .string path)]
  | create path data key =>
      .object
        [("data", data),
         ("idempotency_key", Json.ofOption .string key),
         ("op", .string "create"),
         ("path", .string path)]
  | update path data ifVersion merge key =>
      .object
        [("data", data),
         ("idempotency_key", Json.ofOption .string key),
         ("if_version", Json.ofOption Json.ofWord ifVersion),
         ("merge", .bool merge),
         ("op", .string "update"),
         ("path", .string path)]
  | delete path ifVersion key =>
      .object
        [("idempotency_key", Json.ofOption .string key),
         ("if_version", Json.ofOption Json.ofWord ifVersion),
         ("op", .string "delete"),
         ("path", .string path)]
  | query q => queryToJson "query" q
  | explain q => queryToJson "explain" q
  | commit transaction reads writes =>
      .object
        [("op", .string "commit"),
         ("operations", .array (writes.map Write.toJson)),
         ("reads", .array (reads.map ReadVersion.toJson)),
         ("transaction_id", Json.ofOption .string transaction)]

/-- An operation from the fields of its written form. -/
def ofFields?
    (name : String)
    (v : Json) :
    Option Operation := do
  match name with
  | "get" =>
      match ← v.slots? .refused [["path"]] with
      | [path] => some (get (← Json.required Json.asString? path))
      | _ => none
  | "create" =>
      match ← v.slots? .refused [["path"], ["data"], ["idempotency_key"]] with
      | [path, data, key] =>
          some
            (create
              (← Json.required Json.asString? path)
              (← data)
              (← Json.optional Json.asString? key))
      | _ => none
  | "update" =>
      match ← v.slots? .refused
          [["path"], ["data"], ["if_version"], ["merge"], ["idempotency_key"]] with
      | [path, data, ifVersion, merge, key] =>
          some
            (update
              (← Json.required Json.asString? path)
              (← data)
              (← Json.optional Json.asWord? ifVersion)
              (← Json.withDefault false Json.asBool? merge)
              (← Json.optional Json.asString? key))
      | _ => none
  | "delete" =>
      match ← v.slots? .refused [["path"], ["if_version"], ["idempotency_key"]] with
      | [path, ifVersion, key] =>
          some
            (delete
              (← Json.required Json.asString? path)
              (← Json.optional Json.asWord? ifVersion)
              (← Json.optional Json.asString? key))
      | _ => none
  | "query" => (Query.ofJson? .inner v).map query
  | "explain" => (Query.ofJson? .inner v).map explain
  | "commit" =>
      match ← v.slots? .refused [["transaction_id"], ["reads"], ["operations"]] with
      | [transaction, reads, writes] =>
          some
            (commit
              (← Json.optional Json.asString? transaction)
              (← Json.withDefault [] (Json.asList? ReadVersion.ofJson?) reads)
              (← Json.required (Json.asList? (Write.ofJson? .inner)) writes))
      | _ => none
  | _ => none

/-- An operation from its written form. -/
def ofJson? (v : Json) : Option Operation :=
  match v.tagged? .outer "op" names with
  | none => none
  | some (name, fields) => ofFields? name fields

end Operation
end DocumentStore
