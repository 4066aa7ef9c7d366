import DocumentStore.Index.Catalog
import DocumentStore.Store.Error

/-!
# Writes and the documents they change

A write creates, updates or deletes the document at a path of a tenant.
Whether it may do so depends only on the current version of that document:
`Write.check` says what the version will be, or why the write fails.  The
stored documents are kept by tenant and path.
-/

namespace DocumentStore

/-- A write to one path. -/
inductive Write where
  | create (path : DocumentPath) (data : Json)
  | update (path : DocumentPath) (data : Json) (ifVersion : Option UInt64) (merge : Bool)
  | delete (path : DocumentPath) (ifVersion : Option UInt64)
deriving DecidableEq

namespace Write

/-- The path written to. -/
def path : Write → DocumentPath
  | create path _ => path
  | update path .. => path
  | delete path _ => path

/-- What the write does. -/
def kind : Write → ChangeKind
  | create .. => .create
  | update .. => .update
  | delete .. => .delete

/-- The name of the write. -/
def name : Write → String
  | create .. => "create"
  | update .. => "update"
  | delete .. => "delete"

/-- The payload that the write brings. -/
def payload? : Write → Option Json
  | create _ data => some data
  | update _ data _ _ => some data
  | delete .. => none

/-- A version guard that a current version must meet. -/
def guard
    (path : DocumentPath)
    (ifVersion : Option UInt64)
    (current : Nat)
    (next : Option Nat) :
    Except StoreError (Option Nat) :=
  match ifVersion with
  | none => .ok next
  | some expected =>
      if expected.toNat = current then .ok next
      else .error (.versionConflict path.text expected.toNat current)

/--
The version after a write, given the version before; none stands for no
document.  A deletion of no document succeeds whatever its guard.
-/
def check
    (tenant : String) :
    Write → (current : Option Nat) → Except StoreError (Option Nat)
  | create path _, some _ => .error (.alreadyExists tenant path.text)
  | create _ _, none => .ok (some 1)
  | update path .., none => .error (.notFound tenant path.text)
  | update path _ ifVersion _, some v => guard path ifVersion v (some (v + 1))
  | delete path ifVersion, some v => guard path ifVersion v none
  | delete .., none => .ok none

/-! ### Written form -/

/-- The names of the writes. -/
def names : List String := ["create", "update", "delete"]

/-- The written form. -/
def toJson : Write → Json
  | create path data =>
      .object [("data", data), ("op", .string "create"), ("path", .string path.text)]
  | update path data ifVersion merge =>
      .object
        [("data", data),
         ("if_version", Json.ofOption Json.ofWord ifVersion),
         ("merge", .bool merge),
         ("op", .string "update"),
         ("path", .string path.text)]
  | delete path ifVersion =>
      .object
        [("if_version", Json.ofOption Json.ofWord ifVersion),
         ("op", .string "delete"),
         ("path", .string path.text)]

/-- A write from its written form. -/
def ofJson?
    (place : Json.Place)
    (v : Json) :
    Option Write := do
  match ← v.tagged? place "op" names with
  | ("create", fields) =>
      match ← fields.slots? .refused [["path"], ["data"]] with
      | [path, data] =>
          some (create (← Json.required DocumentPath.ofJson? path) (← data))
      | _ => none
  | ("update", fields) =>
      match ← fields.slots? .refused [["path"], ["data"], ["if_version"], ["merge"]] with
      | [path, data, ifVersion, merge] =>
          some
            (update
              (← Json.required DocumentPath.ofJson? path)
              (← data)
              (← Json.optional Json.asWord? ifVersion)
              (← Json.withDefault false Json.asBool? merge))
      | _ => none
  | ("delete", fields) =>
      match ← fields.slots? .refused [["path"], ["if_version"]] with
      | [path, ifVersion] =>
          some
            (delete
              (← Json.required DocumentPath.ofJson? path)
              (← Json.optional Json.asWord? ifVersion))
      | _ => none
  | _ => none

end Write

/-- The place of a document: its tenant and its path. -/
structure DocumentKey where
  tenant : String
  path : DocumentPath
deriving DecidableEq

namespace DocumentKey

/-- By tenant, then by path. -/
def order : DocumentKey → DocumentKey → Ordering :=
  compareLex (compareOn tenant) (compareOn path)

instance : Ord DocumentKey := ⟨order⟩

instance : Std.TransOrd DocumentKey :=
  inferInstanceAs (Std.TransCmp (compareLex (compareOn tenant) (compareOn path)))

instance : Std.LawfulEqOrd DocumentKey where
  eq_of_compare {a b} h := by
    obtain ⟨h1, h2⟩ := Ordering.then_eq_eq.1 (show (compare a.tenant b.tenant).then
      (compare a.path b.path) = .eq from h)
    obtain ⟨t, p⟩ := a
    obtain ⟨t', p'⟩ := b
    cases Std.LawfulEqOrd.eq_of_compare h1
    cases Std.LawfulEqOrd.eq_of_compare h2
    rfl

end DocumentKey

/-- The stored documents by tenant and path. -/
abbrev Documents := OrderedMap DocumentKey Document

namespace Documents

/-- The current version of a document. -/
def version?
    (docs : Documents)
    (tenant : String)
    (path : DocumentPath) :
    Option Nat :=
  (docs.get? ⟨tenant, path⟩).map Document.version

/--
Carry out a write at a time.  The change is missing when the write deletes a
document that is not there.
-/
def apply
    (docs : Documents)
    (tenant : String)
    (write : Write)
    (now : Timestamp) :
    Except StoreError (Option Change × Documents) :=
  let current := docs.get? ⟨tenant, write.path⟩
  match write.check tenant (current.map Document.version) with
  | .error e => .error e
  | .ok _ =>
      match write, current with
      | .create path data, _ =>
          let doc := Document.new path data tenant now
          .ok (some ⟨.create, tenant, path, none, some doc⟩, docs.insert ⟨tenant, path⟩ doc)
      | .update path data _ merge, some before =>
          let after := before.revise data merge now
          .ok (some ⟨.update, tenant, path, some before, some after⟩,
            docs.insert ⟨tenant, path⟩ after)
      | .delete path _, some before =>
          .ok (some ⟨.delete, tenant, path, some before, none⟩, docs.erase ⟨tenant, path⟩)
      | _, none => .ok (none, docs)

end Documents
end DocumentStore
