import DocumentStore.Store.Write

/-!
# Transactions

A transaction gathers writes and remembers the version of every document it
read, 0 for one that was absent.  The first read of a path counts.  Nothing
happens to the store before the commit.

The reads are held in a map that is hashed at random, so there is no telling in
which order a commit goes through them, and the order is another one with every
transaction.
-/

namespace DocumentStore

/-- What a write returned: the document it left, or whether there was one to delete. -/
inductive WriteResult where
  | written (document : Document)
  | deleted (existed : Bool)
deriving DecidableEq

/-- The result of a commit: the results of its writes in order. -/
structure Receipt where
  transaction : String
  results : List WriteResult
deriving DecidableEq

/-- A document that a transaction has read, with the version it had. -/
structure ReadVersion where
  path : DocumentPath
  version : UInt64
deriving DecidableEq

namespace ReadVersion

/-- The read of a path named in a request. -/
def new
    (raw : String)
    (version : UInt64) :
    Except StoreError ReadVersion :=
  match readPath raw with
  | .error e => .error e
  | .ok path => .ok ⟨path, version⟩

/-- The written form. -/
def toJson (r : ReadVersion) : Json :=
  .object [("path", .string r.path.text), ("version", Json.ofWord r.version)]

/-- A read from its written form; the version is 0 by default. -/
def ofJson? (v : Json) : Option ReadVersion := do
  match ← v.slots? .refused [["path"], ["version"]] with
  | [path, version] =>
      some
        { path := ← Json.required DocumentPath.ofJson? path
          version := ← Json.withDefault 0 Json.asWord? version }
  | _ => none

end ReadVersion

/-- An order in which the reads of a transaction may be gone through. -/
class ReadOrder where
  arrange : List (DocumentPath × Nat) → List (DocumentPath × Nat)
  perm : ∀ reads, (arrange reads).Perm reads

/-- Where nothing else is said, reads are gone through as they were noted. -/
instance ReadOrder.asNoted : ReadOrder where
  arrange reads := reads
  perm reads := .refl reads

/-- A transaction under way. -/
structure Transaction where
  id : String
  tenant : String
  writes : List Write
  reads : List (DocumentPath × Nat)
  limit : Nat
deriving DecidableEq

namespace Transaction

/-- A transaction without writes and reads. -/
def begin
    (tenant id : String)
    (limit : Nat) :
    Transaction :=
  ⟨id, tenant, [], [], limit⟩

/-- Gather a write. -/
def add
    (tx : Transaction)
    (write : Write) :
    Except StoreError Transaction :=
  if tx.limit ≤ tx.writes.length then .error (.transactionTooLarge tx.limit)
  else .ok { tx with writes := tx.writes ++ [write] }

/-- Remember a read unless the path was read before. -/
def noteRead
    (tx : Transaction)
    (path : DocumentPath)
    (version : Nat) :
    Transaction :=
  if tx.reads.any fun r => r.1 = path then tx
  else { tx with reads := tx.reads ++ [(path, version)] }

/-- The idempotency key of the write at a position. -/
def derivedKey
    (tx : Transaction)
    (position : Nat) :
    String :=
  tx.id ++ "#" ++ toString position

end Transaction
end DocumentStore
