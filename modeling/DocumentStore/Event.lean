/-!
# Events

The names under which the parts of the database report what happens.
-/

namespace DocumentStore

/-- Something that is reported. -/
inductive Event where
  | documentCreated
  | documentUpdated
  | documentDeleted
  | deleteAbsent
  | versionConflict
  | idempotentReplay
  | idempotencyEvicted
  | transactionCommitted
  | transactionAborted
  | indexCreated
  | indexDropped
  | queryPlanned
  | queryRejected
  | rulesLoaded
  | accessAllowed
  | accessDenied
  | cacheSwept
deriving DecidableEq, Repr

namespace Event

/-- All events, those of the store first. -/
def all : List Event :=
  [documentCreated, documentUpdated, documentDeleted, deleteAbsent, versionConflict,
   idempotentReplay, idempotencyEvicted, transactionCommitted, transactionAborted,
   indexCreated, indexDropped, queryPlanned, queryRejected,
   rulesLoaded, accessAllowed, accessDenied,
   cacheSwept]

/-- The name that is reported. -/
def name : Event → String
  | documentCreated => "DOCUMENT_CREATED"
  | documentUpdated => "DOCUMENT_UPDATED"
  | documentDeleted => "DOCUMENT_DELETED"
  | deleteAbsent => "DELETE_ABSENT"
  | versionConflict => "VERSION_CONFLICT"
  | idempotentReplay => "IDEMPOTENT_REPLAY"
  | idempotencyEvicted => "IDEMPOTENCY_EVICTED"
  | transactionCommitted => "TRANSACTION_COMMITTED"
  | transactionAborted => "TRANSACTION_ABORTED"
  | indexCreated => "INDEX_CREATED"
  | indexDropped => "INDEX_DROPPED"
  | queryPlanned => "QUERY_PLANNED"
  | queryRejected => "QUERY_REJECTED"
  | rulesLoaded => "RULES_LOADED"
  | accessAllowed => "ACCESS_ALLOWED"
  | accessDenied => "ACCESS_DENIED"
  | cacheSwept => "CACHE_SWEPT"

end Event
end DocumentStore
