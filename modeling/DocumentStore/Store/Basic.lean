import DocumentStore.Cache
import DocumentStore.Store.ChangeLog
import DocumentStore.Store.Transaction

/-!
# The document store

The store holds the documents of all tenants, the change log, the replies to
writes that carried an idempotency key, the clock of the log and the indexes.
A request is answered from the recorded reply when its key is known;
otherwise it is checked, carried out, logged, passed on to the indexes and its
reply recorded.

Time is an input.  A request happens at one instant, which decides what has
expired, and takes readings of the wall clock, one for each write; the clock
of the log moves on even when the readings do not.
-/

namespace DocumentStore

/--
When a request happens: its instant, and the wall clock at each of its writes.  To
it belongs what chance decides, the order in which the reads of a commit are gone
through.
-/
structure Moment where
  instant : Nat
  wall : Nat → Timestamp
  [order : ReadOrder]

/-- A recorded reply: to a single write, to a write of a transaction, or to a commit. -/
inductive Reply where
  | single (kind : ChangeKind) (result : WriteResult)
  | member (result : WriteResult)
  | committed (receipt : Receipt)
deriving DecidableEq

/-- What kind of write a reply belongs to. -/
def Reply.kind : Reply → ReplyKind
  | single .create _ => .create
  | single .update _ => .update
  | single .delete _ => .delete
  | member _ => .transactionOperation
  | committed _ => .commit

/-- The state of the store. -/
structure Store where
  /-- How many writes a transaction may gather. -/
  transactionLimit : Nat
  documents : Documents
  log : ChangeLog
  /-- Replies by tenant and idempotency key. -/
  replies : Cache (String × String) Reply
  /-- The last time given to a write. -/
  clock : Option Timestamp
  catalog : Catalog
deriving DecidableEq

namespace Store

/-- The store without documents. -/
def new
    (transactionLimit replyCapacity replyLifetime : Nat)
    (tenantField : String) :
    Store where
  transactionLimit
  documents := OrderedMap.empty
  log := ChangeLog.empty
  replies := Cache.new replyCapacity replyLifetime
  clock := none
  catalog := Catalog.new tenantField

/-! ### Reading -/

/-- The document at a path of a tenant. -/
def find?
    (s : Store)
    (tenant : String)
    (path : DocumentPath) :
    Option Document :=
  s.documents.get? ⟨tenant, path⟩

/-- The document at a path named in a request. -/
def get
    (s : Store)
    (tenant raw : String) :
    Except StoreError Document :=
  match readPath raw with
  | .error e => .error e
  | .ok path =>
      match s.find? tenant path with
      | some doc => .ok doc
      | none => .error (.notFound tenant path.text)

/-- Whether there is a document at a path named in a condition. -/
def exists?
    (s : Store)
    (tenant raw : String) :
    Bool :=
  match DocumentPath.parse raw with
  | .ok path => (s.find? tenant path).isSome
  | .error _ => false

/-- The documents of a collection, by tenant and path, of one tenant or of all. -/
def collect
    (s : Store)
    (collection : String)
    (tenant : Option String) :
    List Document :=
  s.documents.values.filter fun d =>
    d.collection = collection && tenant.all (· = d.tenant)

/-! ### Writing -/

/-- The time after the last one that agrees best with a reading of the wall clock. -/
def timeAfter
    (last : Option Timestamp)
    (reading : Timestamp) :
    Timestamp :=
  match last with
  | some t => if reading.micros ≤ t.micros then t.next else reading
  | none => reading

/-- Log a change and let the indexes follow it. -/
def publish
    (s : Store)
    (change : Change)
    (origin : Origin)
    (now : Timestamp) :
    Store :=
  { s with
    log := s.log.append change origin now
    catalog := s.catalog.follow change }

/-- What a change means for the one who made it. -/
def resultOf : Option Change → WriteResult
  | none => .deleted false
  | some change =>
      match change.after with
      | some doc => .written doc
      | none => .deleted true

/-- Carry out a write at a time and publish its change. -/
def perform
    (s : Store)
    (tenant : String)
    (write : Write)
    (origin : Origin)
    (now : Timestamp) :
    Except StoreError (WriteResult × Store) :=
  match s.documents.apply tenant write now with
  | .error e => .error e
  | .ok (none, _) => .ok (resultOf none, s)
  | .ok (some change, documents) =>
      .ok (resultOf (some change), { s with documents }.publish change origin now)

/-- Look up the reply recorded under a key. -/
def lookupReply
    (s : Store)
    (tenant key : String)
    (instant : Nat) :
    Option Reply × Store :=
  let (reply, replies) := s.replies.get (tenant, key) instant
  (reply, { s with replies })

/-- Record the reply to a key. -/
def record
    (s : Store)
    (tenant key : String)
    (reply : Reply)
    (instant : Nat) :
    Store :=
  { s with replies := (s.replies.insert (tenant, key) reply instant).2 }

/--
Carry out a single write without looking for a recorded reply.  A creation or
an update takes a time even when it fails; a deletion takes one only when
there was a document.
-/
def writeNow
    (s : Store)
    (moment : Moment)
    (tenant actor : String)
    (write : Write)
    (key : Option String) :
    Except StoreError WriteResult × Store :=
  let now := timeAfter s.clock (moment.wall 0)
  let ticked := { s with clock := some now }
  match ticked.perform tenant write ⟨actor, key, none⟩ now with
  | .error e => (.error e, if write.kind = .delete then s else ticked)
  | .ok (.deleted false, _) => (.ok (.deleted false), s)
  | .ok (result, s) => (.ok result, s)

/--
A single write.  A key that is known answers with the recorded reply if it
belongs to the same kind of write; otherwise the key is refused.
-/
def write
    (s : Store)
    (moment : Moment)
    (tenant actor : String)
    (write : Write)
    (key : Option String) :
    Except StoreError WriteResult × Store :=
  match key with
  | none => s.writeNow moment tenant actor write none
  | some k =>
      match s.lookupReply tenant k moment.instant with
      | (some (.single kind result), s) =>
          if kind = write.kind then (.ok result, s)
          else (.error (.keyReused k (Reply.single kind result).kind), s)
      | (some reply, s) => (.error (.keyReused k reply.kind), s)
      | (none, s) =>
          match s.writeNow moment tenant actor write (some k) with
          | (.error e, s) => (.error e, s)
          | (.ok result, s) =>
              (.ok result, s.record tenant k (.single write.kind result) moment.instant)

/-- Create a document at a path named in a request. -/
def create
    (s : Store)
    (moment : Moment)
    (tenant actor raw : String)
    (data : Json)
    (key : Option String) :
    Except StoreError WriteResult × Store :=
  match readPath raw with
  | .error e => (.error e, s)
  | .ok path => s.write moment tenant actor (.create path data) key

/-- Replace or merge the payload of the document at a path named in a request. -/
def update
    (s : Store)
    (moment : Moment)
    (tenant actor raw : String)
    (data : Json)
    (ifVersion : Option UInt64)
    (merge : Bool)
    (key : Option String) :
    Except StoreError WriteResult × Store :=
  match readPath raw with
  | .error e => (.error e, s)
  | .ok path => s.write moment tenant actor (.update path data ifVersion merge) key

/-- Delete the document at a path named in a request. -/
def delete
    (s : Store)
    (moment : Moment)
    (tenant actor raw : String)
    (ifVersion : Option UInt64)
    (key : Option String) :
    Except StoreError WriteResult × Store :=
  match readPath raw with
  | .error e => (.error e, s)
  | .ok path => s.write moment tenant actor (.delete path ifVersion) key

/-! ### Committing transactions -/

/-- Read a document within a transaction. -/
def readIn
    (s : Store)
    (tx : Transaction)
    (raw : String) :
    Except StoreError (Option Document × Transaction) :=
  match readPath raw with
  | .error e => .error e
  | .ok path =>
      let doc := s.find? tx.tenant path
      .ok (doc, tx.noteRead path ((doc.map Document.version).getD 0))

/-- The results recorded under the derived keys of a transaction, from a position on. -/
def derivedReplies
    (tx : Transaction)
    (instant : Nat) :
    (position : Nat) → List Write → Store →
    Except StoreError (List (Option WriteResult)) × Store
  | _, [], s => (.ok [], s)
  | position, _ :: rest, s =>
      match s.lookupReply tx.tenant (tx.derivedKey position) instant with
      | (some (.member result), s) =>
          match derivedReplies tx instant (position + 1) rest s with
          | (.ok priors, s) => (.ok (some result :: priors), s)
          | (.error e, s) => (.error e, s)
      | (some reply, s) => (.error (.keyReused (tx.derivedKey position) reply.kind), s)
      | (none, s) =>
          match derivedReplies tx instant (position + 1) rest s with
          | (.ok priors, s) => (.ok (none :: priors), s)
          | (.error e, s) => (.error e, s)

/-- The first read, in some order, of a transaction that is no longer current. -/
def staleRead?
    (s : Store)
    (tx : Transaction)
    (order : ReadOrder) :
    Option StoreError :=
  (order.arrange tx.reads).findSome? fun (path, version) =>
    let current := (s.documents.version? tx.tenant path).getD 0
    if current = version then none
    else some (.versionConflict path.text version current)

/--
The first write that would fail, judged on the versions that the writes before
it would leave.  Writes with a recorded result are passed over.
-/
def failingWrite?
    (s : Store)
    (tx : Transaction) :
    (position : Nat) → (overlay : List (DocumentPath × Option Nat)) →
    List (Write × Option WriteResult) → Option StoreError
  | _, _, [] => none
  | position, overlay, (_, some _) :: rest => failingWrite? s tx (position + 1) overlay rest
  | position, overlay, (write, none) :: rest =>
      let current :=
        match overlay.find? fun v => v.1 = write.path with
        | some v => v.2
        | none => s.documents.version? tx.tenant write.path
      match write.check tx.tenant current with
      | .error cause => some (.aborted tx.id position cause)
      | .ok next => failingWrite? s tx (position + 1) ((write.path, next) :: overlay) rest

/-- Carry out the writes of a transaction that have no recorded result. -/
def performAll
    (tx : Transaction)
    (moment : Moment)
    (actor : String) :
    (position : Nat) → List (Write × Option WriteResult) → Store →
    Except StoreError (List WriteResult) × Store
  | _, [], s => (.ok [], s)
  | position, (_, some prior) :: rest, s =>
      match performAll tx moment actor (position + 1) rest s with
      | (.ok results, s) => (.ok (prior :: results), s)
      | (.error e, s) => (.error e, s)
  | position, (write, none) :: rest, s =>
      let key := tx.derivedKey position
      let now := timeAfter s.clock (moment.wall position)
      let ticked := { s with clock := some now }
      match ticked.perform tx.tenant write ⟨actor, some key, some tx.id⟩ now with
      | .error e => (.error e, ticked)
      | .ok (result, s) =>
          let s := s.record tx.tenant key (.member result) moment.instant
          match performAll tx moment actor (position + 1) rest s with
          | (.ok results, s) => (.ok (result :: results), s)
          | (.error e, s) => (.error e, s)

/-- Why a transaction may not be carried out. -/
def refusal?
    (s : Store)
    (tx : Transaction)
    (order : ReadOrder)
    (priors : List (Option WriteResult)) :
    Option StoreError :=
  match s.staleRead? tx order with
  | some e => some e
  | none => s.failingWrite? tx 0 [] (tx.writes.zip priors)

/--
Commit a transaction: all of its writes or none.  A known transaction id
answers with the recorded receipt.  Writes whose derived keys are known keep
their recorded results, and when all are known nothing is checked again.
-/
def commit
    (s : Store)
    (moment : Moment)
    (tx : Transaction)
    (actor : String) :
    Except StoreError Receipt × Store :=
  match s.lookupReply tx.tenant tx.id moment.instant with
  | (some (.committed receipt), s) => (.ok receipt, s)
  | (some reply, s) => (.error (.keyReused tx.id reply.kind), s)
  | (none, s) =>
      match derivedReplies tx moment.instant 0 tx.writes s with
      | (.error e, s) => (.error e, s)
      | (.ok priors, s) =>
          let replayed := !tx.writes.isEmpty && priors.all Option.isSome
          match if replayed then none else s.refusal? tx moment.order priors with
          | some e => (.error e, s)
          | none =>
              match performAll tx moment actor 0 (tx.writes.zip priors) s with
              | (.error e, s) => (.error e, s)
              | (.ok results, s) =>
                  let receipt : Receipt := ⟨tx.id, results⟩
                  (.ok receipt,
                    s.record tx.tenant tx.id (.committed receipt) moment.instant)

/-- Drop the expired replies and count them. -/
def sweep
    (s : Store)
    (instant : Nat) :
    Nat × Store :=
  let (dropped, replies) := s.replies.sweep instant
  (dropped, { s with replies })

/-! ### Indexes -/

/-- Declare an index and enter the stored documents. -/
def createIndex
    (s : Store)
    (definition : IndexDefinition) :
    Except IndexError IndexDefinition × Store :=
  match s.catalog.create definition s.documents.values with
  | .error e => (.error e, s)
  | .ok (definition, catalog) => (.ok definition, { s with catalog })

/-- Remove an index. -/
def dropIndex
    (s : Store)
    (name : String) :
    Except IndexError IndexDefinition × Store :=
  match s.catalog.drop name with
  | .error e => (.error e, s)
  | .ok (definition, catalog) => (.ok definition, { s with catalog })

end Store
end DocumentStore
