import DocumentStore.Proofs.Store.Commit
import DocumentStore.Proofs.Store.Histories

/-!
# Replaying the change log

A replay reads the log from its first entry on and keeps, for each place, the
payload and the version of the document there.  Of a store that came about by
calls, the replay of the whole log yields exactly the stored documents; every
entry goes on from what the replay of the entries before it has yielded; and
the times of a document are those of its latest creation and of its latest
entry.

The relation between a log and documents is `ChangeLog.AccountsFor`.  It holds
of a new store, and a change that is applied and logged keeps it.
-/

namespace DocumentStore

/-- What the log tells of a document. -/
structure Snapshot where
  data : Json
  version : Nat
deriving DecidableEq

/-- The part of a document that the log tells. -/
def Document.snapshot (d : Document) : Snapshot :=
  ⟨d.data, d.version⟩

/-- What the log tells of all documents. -/
abbrev Snapshots := OrderedMap DocumentKey Snapshot

namespace LogEntry

/--
Replay an entry: a creation or an update sets the payload after it and its
version, a deletion removes what was there.
-/
def replay
    (m : Snapshots)
    (e : LogEntry) :
    Snapshots :=
  match e.kind, e.after with
  | .delete, _ => m.erase e.place
  | .create, some data => m.insert e.place ⟨data, e.version⟩
  | .update, some data => m.insert e.place ⟨data, e.version⟩
  | .create, none => m
  | .update, none => m

/-- The ways in which an entry goes on from what was replayed before it. -/
inductive Continues
    (m : Snapshots)
    (e : LogEntry) :
    Prop
  | created
      {data : Json}
      (hkind : e.kind = .create)
      (habsent : m.get? e.place = none)
      (hbefore : e.before = none)
      (hafter : e.after = some data)
      (hversion : e.version = 1)
  | updated
      {old : Snapshot}
      {data : Json}
      (hkind : e.kind = .update)
      (hpresent : m.get? e.place = some old)
      (hbefore : e.before = some old.data)
      (hafter : e.after = some data)
      (hversion : e.version = old.version + 1)
  | deleted
      {old : Snapshot}
      (hkind : e.kind = .delete)
      (hpresent : m.get? e.place = some old)
      (hbefore : e.before = some old.data)
      (hafter : e.after = none)
      (hversion : e.version = old.version + 1)

end LogEntry

/-- What some entries tell, replayed from no documents. -/
def replayed (entries : List LogEntry) : Snapshots :=
  entries.foldl LogEntry.replay OrderedMap.empty

@[simp] theorem replayed_append_singleton
    (entries : List LogEntry)
    (e : LogEntry) :
    replayed (entries ++ [e]) = e.replay (replayed entries) := by
  simp [replayed]

/-- The latest entry about a place. -/
def latest?
    (key : DocumentKey)
    (entries : List LogEntry) :
    Option LogEntry :=
  (entries.filter fun e => e.place = key).getLast?

/-- The latest entry that tells of a creation at a place. -/
def latestCreation?
    (key : DocumentKey)
    (entries : List LogEntry) :
    Option LogEntry :=
  (entries.filter fun e => e.place = key ∧ e.kind = .create).getLast?

theorem latest?_append_singleton
    (key : DocumentKey)
    (entries : List LogEntry)
    (e : LogEntry) :
    latest? key (entries ++ [e]) =
      if e.place = key then some e else latest? key entries := by
  unfold latest?
  split <;> next h => simp [h]

theorem latestCreation?_append_singleton
    (key : DocumentKey)
    (entries : List LogEntry)
    (e : LogEntry) :
    latestCreation? key (entries ++ [e]) =
      if e.place = key ∧ e.kind = .create then some e else latestCreation? key entries := by
  unfold latestCreation?
  split <;> next h => simp [h]

/-- The log tells of exactly these documents, and how each came to be. -/
structure ChangeLog.AccountsFor
    (log : ChangeLog)
    (docs : Documents) :
    Prop where
  /-- The replay of the log yields the documents with their payloads and versions. -/
  replayed_eq : replayed log.entries = docs.mapValues Document.snapshot
  /-- The `n`-th entry has the number `n`. -/
  numbered : ∀ earlier e later,
    log.entries = earlier ++ e :: later → e.sequence = earlier.length + 1
  /-- Every entry goes on from what the entries before it have made. -/
  continues : ∀ earlier e later,
    log.entries = earlier ++ e :: later → e.Continues (replayed earlier)
  /-- A document was created when its last creation was logged. -/
  createdAt_eq : ∀ key doc, docs.get? key = some doc →
    (latestCreation? key log.entries).map LogEntry.timestamp = some doc.createdAt
  /-- A document was last changed when the last entry about it was logged. -/
  updatedAt_eq : ∀ key doc, docs.get? key = some doc →
    (latest? key log.entries).map LogEntry.timestamp = some doc.updatedAt

section Step

variable
  {docs docs' : Documents}
  {tenant : String}
  {write : Write}
  {now : Timestamp}
  {change : Change}

/-- The entry of a change goes on from the documents before the change. -/
theorem continues_entryOf
    (h : Documents.Applied docs tenant now write (some change) docs')
    (sequence : Nat)
    (origin : Origin) :
    (ChangeLog.entryOf sequence change origin now).Continues
      (docs.mapValues Document.snapshot) := by
  have hget := OrderedMap.get?_mapValues Document.snapshot docs ⟨tenant, write.path⟩
  cases h with
  | create hnone =>
      rw [Write.path, hnone] at hget
      exact .created rfl hget rfl rfl rfl
  | @update _ data _ merge before hsome hguard =>
      rw [Write.path, hsome] at hget
      have hversion : (before.revise data merge now).version = before.snapshot.version + 1 := rfl
      exact .updated rfl hget rfl rfl hversion
  | @delete _ _ before hsome hguard =>
      rw [Write.path, hsome] at hget
      have hversion : before.version + 1 = before.snapshot.version + 1 := rfl
      exact .deleted rfl hget rfl rfl hversion

/-- The replay of the entry of a change yields the documents after the change. -/
theorem replay_entryOf
    (h : Documents.Applied docs tenant now write (some change) docs')
    (sequence : Nat)
    (origin : Origin) :
    (ChangeLog.entryOf sequence change origin now).replay (docs.mapValues Document.snapshot) =
      docs'.mapValues Document.snapshot := by
  cases h with
  | create hnone =>
      rw [OrderedMap.mapValues_insert]
      rfl
  | update hsome hguard =>
      rw [OrderedMap.mapValues_insert]
      rfl
  | delete hsome hguard =>
      rw [OrderedMap.mapValues_erase]
      rfl

/--
A document that a change leaves at its own place bears the time of the change;
it was created then too, unless the change went on from a document there.
-/
theorem times_of_applied
    {doc : Document}
    (h : Documents.Applied docs tenant now write (some change) docs')
    (hdoc : docs'.get? ⟨tenant, write.path⟩ = some doc) :
    doc.updatedAt = now ∧
      (change.kind = .create ∧ doc.createdAt = now ∨
        change.kind ≠ .create ∧
          ∃ old, docs.get? ⟨tenant, write.path⟩ = some old ∧ doc.createdAt = old.createdAt) := by
  cases h with
  | create hnone =>
      rw [Write.path, OrderedMap.get?_insert, if_pos rfl] at hdoc
      cases hdoc
      exact ⟨rfl, .inl ⟨rfl, rfl⟩⟩
  | @update _ _ _ _ before hsome hguard =>
      rw [Write.path, OrderedMap.get?_insert, if_pos rfl] at hdoc
      cases hdoc
      have hkind : ChangeKind.update ≠ ChangeKind.create := by decide
      exact ⟨rfl, .inr ⟨hkind, before, hsome, rfl⟩⟩
  | delete hsome hguard =>
      rw [Write.path, OrderedMap.get?_erase, if_pos rfl] at hdoc
      cases hdoc

end Step

/-- What holds of every entry of a log and of a new one holds of every entry then. -/
theorem forall_split_append_singleton
    {motive : List LogEntry → LogEntry → Prop}
    {entries : List LogEntry}
    {new : LogEntry}
    (hold : ∀ earlier e later, entries = earlier ++ e :: later → motive earlier e)
    (hnew : motive entries new)
    (earlier : List LogEntry)
    (e : LogEntry)
    (later : List LogEntry)
    (h : entries ++ [new] = earlier ++ e :: later) :
    motive earlier e := by
  rcases List.eq_nil_or_concat later with rfl | ⟨rest, last, rfl⟩
  · obtain ⟨rfl, hlast⟩ := List.append_inj' h rfl
    cases hlast
    exact hnew
  · refine hold earlier e rest ?_
    rw [List.concat_eq_append, ← List.cons_append, ← List.append_assoc] at h
    exact (List.append_inj' h rfl).1

namespace ChangeLog.AccountsFor

theorem empty : ChangeLog.empty.AccountsFor OrderedMap.empty where
  replayed_eq := rfl
  numbered := fun earlier e later h => absurd h (by simp [ChangeLog.empty])
  continues := fun earlier e later h => absurd h (by simp [ChangeLog.empty])
  createdAt_eq := fun key doc h => nomatch h
  updatedAt_eq := fun key doc h => nomatch h

/-- A change that is applied and logged keeps the log telling of the documents. -/
theorem append
    {log : ChangeLog}
    {docs docs' : Documents}
    {tenant : String}
    {write : Write}
    {now : Timestamp}
    {change : Change}
    (h : log.AccountsFor docs)
    (happlied : Documents.Applied docs tenant now write (some change) docs')
    (origin : Origin) :
    (log.append change origin now).AccountsFor docs' := by
  have hplace := LogEntry.place_entryOf happlied (log.entries.length + 1) origin
  -- a document at another place was there, and the new entry does not count for it
  have helse : ∀ {key : DocumentKey} {doc : Document}, key ≠ ⟨tenant, write.path⟩ →
      docs'.get? key = some doc → docs.get? key = some doc := fun hne hdoc =>
    (Documents.get?_of_applied_of_ne happlied hne).symm.trans hdoc
  refine ⟨?_, ?_, ?_, ?_, ?_⟩
  · simp only [ChangeLog.append]
    rw [replayed_append_singleton, h.replayed_eq, replay_entryOf happlied]
  · refine forall_split_append_singleton
      (motive := fun earlier e => e.sequence = earlier.length + 1) h.numbered rfl
  · refine forall_split_append_singleton
      (motive := fun earlier e => e.Continues (replayed earlier)) h.continues ?_
    rw [h.replayed_eq]
    exact continues_entryOf happlied _ origin
  · intro key doc hdoc
    simp only [ChangeLog.append]
    rw [latestCreation?_append_singleton, hplace]
    by_cases hkey : key = ⟨tenant, write.path⟩
    · subst hkey
      obtain ⟨-, ⟨hkind, hcreated⟩ | ⟨hkind, old, hold, hcreated⟩⟩ :=
        times_of_applied happlied hdoc
      · rw [if_pos ⟨rfl, hkind⟩, hcreated]
        rfl
      · rw [if_neg (fun hboth => hkind hboth.2), hcreated]
        exact h.createdAt_eq _ old hold
    · rw [if_neg (fun hboth => hkey hboth.1.symm)]
      exact h.createdAt_eq key doc (helse hkey hdoc)
  · intro key doc hdoc
    simp only [ChangeLog.append]
    rw [latest?_append_singleton, hplace]
    by_cases hkey : key = ⟨tenant, write.path⟩
    · subst hkey
      rw [if_pos rfl, (times_of_applied happlied hdoc).1]
      rfl
    · rw [if_neg (fun heq => hkey heq.symm)]
      exact h.updatedAt_eq key doc (helse hkey hdoc)

end ChangeLog.AccountsFor

namespace Store

/-- The log of a store tells of its documents. -/
def Accounted (s : Store) : Prop :=
  s.log.AccountsFor s.documents

/-- A move of the store keeps the log telling of the documents. -/
theorem Accounted.move
    {s s' : Store}
    (hmove : Move s s')
    (h : s.Accounted) :
    s'.Accounted := by
  cases hmove with
  | replies =>
      exact h
  | tick =>
      exact h
  | change reading happly origin =>
      exact h.append (Documents.applied_of_apply happly) origin

/-- A call is made of moves. -/
theorem moves_serve
    (s : Store)
    (moment : Moment)
    (call : Call) :
    Moves s (s.serve moment call).2 := by
  have hserved := s.served_serve moment call
  generalize s.serve moment call = response at hserved
  cases hserved with
  | pathless hpath e =>
      exact .refl
  | write hwrites =>
      exact s.moves_write moment _ _ _ _
  | commit tx actor =>
      exact s.moves_commit moment tx actor
  | sweep =>
      exact s.moves_sweep moment.instant

theorem Accounted.createIndex
    {s : Store}
    (h : s.Accounted)
    (definition : IndexDefinition) :
    (s.createIndex definition).2.Accounted := by
  obtain ⟨catalog, hcatalog⟩ := s.createIndex_with_catalog definition
  rw [hcatalog]
  exact h

theorem Accounted.dropIndex
    {s : Store}
    (h : s.Accounted)
    (name : String) :
    (s.dropIndex name).2.Accounted := by
  obtain ⟨catalog, hcatalog⟩ := s.dropIndex_with_catalog name
  rw [hcatalog]
  exact h

/-- After any run from a new store the log tells of exactly the documents. -/
theorem Run.log_accounts_for_documents
    {limit capacity lifetime : Nat}
    {tenantField : String}
    {calls : List (Moment × Call)}
    {s : Store}
    (h : Run (Store.new limit capacity lifetime tenantField) calls s) :
    s.log.AccountsFor s.documents := by
  show s.Accounted
  induction h with
  | start =>
      exact ChangeLog.AccountsFor.empty
  | @serve calls s _ moment call ih =>
      exact (s.moves_serve moment call).preserves Accounted.move ih
  | createIndex _ definition ih =>
      exact ih.createIndex definition
  | dropIndex _ name ih =>
      exact ih.dropIndex name

/-- An order is closed and opened again. -/
def closing : Transaction where
  id := "t"
  tenant := "T1"
  writes := [.delete orderPath none, .create orderPath (.ofNat 3)]
  reads := []
  limit := 500

/--
An order is created once more in vain, changed under a key, changed again
under the same key, and closed and opened again in a transaction.
-/
def revisions : List (Moment × Call) :=
  [(⟨1, fun _ => ⟨8⟩⟩, .create "T1" "bob" "orders/O1" (.ofNat 9) none),
   (⟨2, fun _ => ⟨8⟩⟩, .update "T1" "ann" "orders/O1" (.ofNat 2) none true (some "m")),
   (⟨3, fun _ => ⟨9⟩⟩, .update "T1" "ann" "orders/O1" (.ofNat 2) none true (some "m")),
   (⟨4, fun _ => ⟨9⟩⟩, .commit closing "ann"),
   (⟨5, fun _ => ⟨9⟩⟩, .sweep)]

/-- The log tells of the order that was revised, by one entry for each change. -/
theorem revised_order_is_accounted_for :
    ∃ calls,
      Run (Store.new 500 100 600000 "tenantId") calls (stocked.afterCalls revisions) ∧
      (stocked.afterCalls revisions).log.AccountsFor (stocked.afterCalls revisions).documents ∧
      (stocked.afterCalls revisions).log.entries.map LogEntry.kind =
        [.create, .update, .delete, .create] := by
  have hstocked : Run (Store.new 500 100 600000 "tenantId") _ stocked :=
    Run.start.serve ⟨0, fun _ => ⟨7⟩⟩ (.create "T1" "ann" "orders/O1" (.ofNat 1) (some "k"))
  have hrevised := hstocked.afterCalls revisions
  exact ⟨_, hrevised, hrevised.log_accounts_for_documents, by decide +kernel⟩

end Store
end DocumentStore
