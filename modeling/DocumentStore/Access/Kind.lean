import DocumentStore.Json.Record

/-!
# Kinds of access

What a request wants to do with a path.  Rules may also name `read`, which
stands for getting and listing, and `write`, which stands for creating,
updating and deleting.
-/

namespace DocumentStore

/-- A single kind of access. -/
inductive AccessKind where
  | get
  | list
  | create
  | update
  | delete
deriving DecidableEq, Repr

namespace AccessKind

/-- The written name. -/
def name : AccessKind → String
  | get => "get"
  | list => "list"
  | create => "create"
  | update => "update"
  | delete => "delete"

/-- The kinds that a name in a rule stands for. -/
def expand? (name : String) : Option (List AccessKind) :=
  match name with
  | "get" => some [get]
  | "list" => some [list]
  | "create" => some [create]
  | "update" => some [update]
  | "delete" => some [delete]
  | "read" => some [get, list]
  | "write" => some [create, update, delete]
  | _ => none

/-- The kind that a name stands for alone. -/
def single? (name : String) : Option AccessKind :=
  match expand? name with
  | some [kind] => some kind
  | _ => none

/-- The written form. -/
def toJson (k : AccessKind) : Json := .string k.name

/-- A kind from its written form. -/
def ofJson? (v : Json) : Option AccessKind :=
  match v.choice? .outer with
  | some s => single? s
  | none => none

end AccessKind
end DocumentStore
