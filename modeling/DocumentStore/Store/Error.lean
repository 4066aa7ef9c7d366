import DocumentStore.Path

/-!
# Errors of the document store

Every error is caused by the request.  An error inside a transaction carries
the position of the operation that failed and that operation's own error.
-/

namespace DocumentStore

/-- The kind of write that an idempotency key was used for. -/
inductive ReplyKind where
  | create
  | update
  | delete
  | transactionOperation
  | commit
deriving DecidableEq, Repr

/-- The kind in words. -/
def ReplyKind.describe : ReplyKind → String
  | create => "create"
  | update => "update"
  | delete => "delete"
  | transactionOperation => "transaction operation"
  | commit => "commit"

/-- Why a request to the store failed. -/
inductive StoreError where
  | notFound (tenant path : String)
  | alreadyExists (tenant path : String)
  /-- The version found is 0 when there is no document. -/
  | versionConflict (path : String) (expected found : Nat)
  | transactionTooLarge (limit : Nat)
  | invalidPath (path : String) (fault : PathFault)
  | keyReused (key : String) (recorded : ReplyKind)
  | aborted (transaction : String) (position : Nat) (cause : StoreError)
deriving DecidableEq, Repr

namespace StoreError

/-- The stable code of an error; an abort has the code of its cause. -/
def code : StoreError → String
  | notFound .. => "NOT_FOUND"
  | alreadyExists .. => "ALREADY_EXISTS"
  | versionConflict .. => "VERSION_CONFLICT"
  | transactionTooLarge _ => "TRANSACTION_TOO_LARGE"
  | invalidPath .. => "INVALID_PATH"
  | keyReused .. => "IDEMPOTENCY_KEY_REUSED"
  | aborted _ _ cause => cause.code

/-- Whether the caller should read again and retry. -/
def isConflict : StoreError → Bool
  | versionConflict .. => true
  | aborted _ _ cause => cause.isConflict
  | _ => false

/-- The error in words. -/
def message : StoreError → String
  | notFound tenant path =>
      "Document not found: " ++ path ++ " (tenant " ++ tenant ++ ")"
  | alreadyExists tenant path =>
      "Document already exists: " ++ path ++ " (tenant " ++ tenant ++ ")"
  | versionConflict path expected found =>
      "Version conflict on " ++ path ++ ": expected " ++ toString expected
        ++ ", found " ++ toString found
  | transactionTooLarge limit =>
      "Transaction exceeds " ++ toString limit ++ " operations"
  | invalidPath path fault =>
      "Invalid document path '" ++ path ++ "': " ++ fault.message
  | keyReused key recorded =>
      "Idempotency key '" ++ key ++ "' was already used for a " ++ recorded.describe
        ++ " operation"
  | aborted transaction position cause =>
      "Transaction " ++ transaction ++ " aborted at operation " ++ toString position
        ++ ": " ++ cause.message

end StoreError

/-- Read a path named in a request. -/
def readPath (raw : String) : Except StoreError DocumentPath :=
  match DocumentPath.parse raw with
  | .ok path => .ok path
  | .error fault => .error (.invalidPath raw fault)

end DocumentStore
