import DocumentStore.Proofs.Store.Documents
import DocumentStore.Store.Basic

/-!
# Stores without times and tags

What a write does depends on the documents and their versions, never on the
time, the idempotency key or the transaction under which it is made.  A store
is reduced to its documents and its log with all times set to one instant and
all keys and transactions left out; every write on a store is then the same
write on what it is reduced to.
-/

namespace DocumentStore

/-- A document with its times forgotten. -/
def Document.untimed (d : Document) : Document :=
  { d with createdAt := .epoch, updatedAt := .epoch }

/-- A result with the times of its document forgotten. -/
def WriteResult.untimed : WriteResult → WriteResult
  | written doc => written doc.untimed
  | deleted existed => deleted existed

/-- A change with the times of its documents forgotten. -/
def Change.untimed (c : Change) : Change :=
  { c with before := c.before.map Document.untimed, after := c.after.map Document.untimed }

/-- A logged change with its time forgotten, and with the key and the transaction it was made under. -/
def LogEntry.untimed (e : LogEntry) : LogEntry :=
  { e with timestamp := .epoch, origin := ⟨e.origin.actor, none, none⟩ }

/-- The documents with their times forgotten. -/
def Documents.untimed (docs : Documents) : Documents :=
  docs.mapValues Document.untimed

/-- The log with the times, keys and transactions of its entries forgotten. -/
def ChangeLog.untimed (log : ChangeLog) : ChangeLog :=
  ⟨log.entries.map LogEntry.untimed⟩

/-- Documents and a log without times, keys and transactions. -/
structure Timeless where
  documents : Documents
  log : ChangeLog
deriving DecidableEq

/-- What remains of a store when times, keys and transactions are forgotten. -/
def Store.timeless (s : Store) : Timeless :=
  ⟨s.documents.untimed, s.log.untimed⟩

namespace Timeless

/-- Carry out a write. -/
def perform
    (t : Timeless)
    (tenant actor : String)
    (write : Write) :
    Except StoreError (WriteResult × Timeless) :=
  match t.documents.apply tenant write .epoch with
  | .error e => .error e
  | .ok (none, _) => .ok (Store.resultOf none, t)
  | .ok (some change, documents) =>
      .ok (Store.resultOf (some change),
        ⟨documents, t.log.append change ⟨actor, none, none⟩ .epoch⟩)

/--
Carry out writes one after the other, passing over those that have a result
already.  The first one that fails is reported with its position.
-/
def performEach
    (tenant actor : String) :
    (position : Nat) → List (Write × Option WriteResult) → Timeless →
    Except (Nat × StoreError) (List WriteResult × Timeless)
  | _, [], t => .ok ([], t)
  | position, (_, some prior) :: rest, t =>
      (performEach tenant actor (position + 1) rest t).map fun r =>
        (prior.untimed :: r.1, r.2)
  | position, (write, none) :: rest, t =>
      match t.perform tenant actor write with
      | .error e => .error (position, e)
      | .ok (result, t) =>
          (performEach tenant actor (position + 1) rest t).map fun r =>
            (result :: r.1, r.2)

end Timeless

/-! ### Forgetting and single steps -/

theorem Document.untimed_new
    (path : DocumentPath)
    (data : Json)
    (tenant : String)
    (now : Timestamp) :
    (Document.new path data tenant now).untimed = Document.new path data tenant .epoch :=
  rfl

theorem Document.untimed_revise
    (d : Document)
    (data : Json)
    (merge : Bool)
    (now : Timestamp) :
    (d.revise data merge now).untimed = d.untimed.revise data merge .epoch :=
  rfl

@[simp] theorem Documents.version?_untimed
    (docs : Documents)
    (tenant : String)
    (path : DocumentPath) :
    docs.untimed.version? tenant path = docs.version? tenant path := by
  unfold version? untimed
  rw [OrderedMap.get?_mapValues, Option.map_map]
  rfl

/-- The time of a write shows nowhere but in the times of documents. -/
theorem Documents.apply_untimed
    (docs : Documents)
    (tenant : String)
    (write : Write)
    (now : Timestamp) :
    (docs.apply tenant write now).map (fun r => (r.1.map Change.untimed, untimed r.2)) =
      docs.untimed.apply tenant write .epoch := by
  have hversion :
      ((docs.untimed.get? ⟨tenant, write.path⟩).map Document.version) =
        (docs.get? ⟨tenant, write.path⟩).map Document.version :=
    docs.version?_untimed tenant write.path
  unfold apply
  dsimp only
  rw [hversion]
  cases write.check tenant ((docs.get? ⟨tenant, write.path⟩).map Document.version) with
  | error e =>
      rfl
  | ok next =>
      have hget :
          docs.untimed.get? ⟨tenant, write.path⟩ =
            (docs.get? ⟨tenant, write.path⟩).map Document.untimed :=
        OrderedMap.get?_mapValues ..
      rw [hget]
      cases docs.get? ⟨tenant, write.path⟩ with
      | none =>
          cases write with
          | create path data =>
              simp [Except.map, Change.untimed, untimed, OrderedMap.mapValues_insert,
                Document.untimed_new]
          | update path data ifVersion merge =>
              rfl
          | delete path ifVersion =>
              rfl
      | some before =>
          cases write with
          | create path data =>
              simp [Except.map, Change.untimed, untimed, OrderedMap.mapValues_insert,
                Document.untimed_new]
          | update path data ifVersion merge =>
              simp [Except.map, Change.untimed, untimed, OrderedMap.mapValues_insert,
                Document.untimed_revise]
          | delete path ifVersion =>
              simp [Except.map, Change.untimed, untimed, OrderedMap.mapValues_erase]

/-- Logging a change and then forgetting times is forgetting them first. -/
theorem ChangeLog.untimed_append
    (log : ChangeLog)
    (change : Change)
    (origin : Origin)
    (now : Timestamp) :
    (log.append change origin now).untimed =
      log.untimed.append change.untimed ⟨origin.actor, none, none⟩ .epoch := by
  obtain ⟨kind, tenant, path, before, after⟩ := change
  cases before <;> cases after <;>
    simp [untimed, append, entryOf, versionAfter, LogEntry.untimed, Change.untimed,
      Document.untimed]

theorem Store.resultOf_untimed
    (change : Option Change) :
    resultOf (change.map Change.untimed) = (resultOf change).untimed := by
  cases change with
  | none =>
      rfl
  | some c =>
      obtain ⟨kind, tenant, path, before, after⟩ := c
      cases after <;> rfl

namespace Store

/-- A write on a store is the same write on what the store is reduced to. -/
theorem perform_timeless
    (s : Store)
    (tenant : String)
    (write : Write)
    (origin : Origin)
    (now : Timestamp) :
    (s.perform tenant write origin now).map (fun r => (r.1.untimed, r.2.timeless)) =
      s.timeless.perform tenant origin.actor write := by
  have happly := s.documents.apply_untimed tenant write now
  unfold perform Timeless.perform
  dsimp only [timeless]
  rw [← happly]
  cases s.documents.apply tenant write now with
  | error e =>
      rfl
  | ok r =>
      obtain ⟨change, documents⟩ := r
      cases change with
      | none =>
          rfl
      | some change =>
          simp only [Except.map, Option.map_some]
          rw [← Store.resultOf_untimed]
          simp [publish, ChangeLog.untimed_append]

end Store
end DocumentStore
