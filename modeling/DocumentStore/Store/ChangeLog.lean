import DocumentStore.Index.Catalog

/-!
# The change log

One entry for each change of a document, in the order of the changes.  Entries
are numbered from 1 and never altered.
-/

namespace DocumentStore

/-- Who made a change, and under which idempotency key and transaction. -/
structure Origin where
  actor : String
  key : Option String
  transaction : Option String
deriving DecidableEq, Repr

/-- A logged change, with the payloads before and after it. -/
structure LogEntry where
  sequence : Nat
  kind : ChangeKind
  tenant : String
  path : DocumentPath
  before : Option Json
  after : Option Json
  version : Nat
  origin : Origin
  timestamp : Timestamp
deriving DecidableEq

/-- The entries, oldest first. -/
structure ChangeLog where
  entries : List LogEntry
deriving DecidableEq

namespace ChangeLog

/-- The log without entries. -/
def empty : ChangeLog := ⟨[]⟩

/-- The version of the document after a change; a deletion counts as one more. -/
def versionAfter (change : Change) : Nat :=
  match change.after, change.before with
  | some after, _ => after.version
  | none, some before => before.version + 1
  | none, none => 0

/-- The entry of a change that becomes the `sequence`-th. -/
def entryOf
    (sequence : Nat)
    (change : Change)
    (origin : Origin)
    (now : Timestamp) :
    LogEntry where
  sequence
  kind := change.kind
  tenant := change.tenant
  path := change.path
  before := change.before.map Document.data
  after := change.after.map Document.data
  version := versionAfter change
  origin
  timestamp := now

/-- Log a change. -/
def append
    (log : ChangeLog)
    (change : Change)
    (origin : Origin)
    (now : Timestamp) :
    ChangeLog :=
  ⟨log.entries ++ [entryOf (log.entries.length + 1) change origin now]⟩

/-- The number of the last entry. -/
def lastSequence (log : ChangeLog) : Nat :=
  log.entries.length

/-- The entries after a number. -/
def after
    (log : ChangeLog)
    (sequence : Nat) :
    List LogEntry :=
  log.entries.drop sequence

/--
The position where a condition ends, by halving the stretch from `low` to
`high` that is left to look at.  It is right if the condition holds of all items
up to some position and of none after it.
-/
def boundary
    {α : Type}
    (p : α → Bool)
    (items : List α)
    (low high : Nat)
    (hbound : high ≤ items.length) :
    Nat :=
  if h : low < high then
    let middle := low + (high - low) / 2
    if p items[middle] then boundary p items (middle + 1) high hbound
    else boundary p items low middle (by omega)
  else
    low
termination_by high - low

/--
The entries newer than an instant, of one tenant or of all.  Their times
increase, so the first of them is searched for by halving.
-/
def since
    (log : ChangeLog)
    (instant : Timestamp)
    (tenant : Option String) :
    List LogEntry :=
  let start :=
    boundary (fun e => decide (e.timestamp.micros ≤ instant.micros)) log.entries
      0 log.entries.length (Nat.le_refl _)
  (log.entries.drop start).filter fun e => tenant.all (· = e.tenant)

/-- The instant of the entry with a number; the epoch when there is none. -/
def instantOf
    (log : ChangeLog)
    (sequence : Nat) :
    Timestamp :=
  match log.entries.find? fun e => e.sequence = sequence with
  | some e => e.timestamp
  | none => Timestamp.epoch

/-- The number of the entry made at an instant. -/
def sequenceOf?
    (log : ChangeLog)
    (instant : Timestamp) :
    Option Nat :=
  (log.entries.find? fun e => e.timestamp = instant).map LogEntry.sequence

end ChangeLog
end DocumentStore
