import DocumentStore.Gateway.Database
import DocumentStore.Proofs.Index.Catalog
import DocumentStore.Proofs.Store.Moves
import DocumentStore.Proofs.Store.Twins

/-!
# What can happen to a database

A database is opened with settings and rules.  Then requests pass its rules,
its store is written to directly, and indexes and rules are put in place and
taken away, in any order.  Everything but the declaration and the removal of
an index is made of moves of the store, and does not look at the catalog.
-/

namespace DocumentStore
namespace Database

/-- What can happen to a database. -/
inductive Action where
  /-- A request that the rules judge. -/
  | execute
      (moment : Moment)
      (freshId : String)
      (requester : Requester)
      (operation : Operation)
  /-- A document created without asking the rules. -/
  | create
      (moment : Moment)
      (tenant actor raw : String)
      (data : Json)
      (key : Option String)
  /-- A document updated without asking the rules. -/
  | update
      (moment : Moment)
      (tenant actor raw : String)
      (data : Json)
      (ifVersion : Option UInt64)
      (merge : Bool)
      (key : Option String)
  /-- A document deleted without asking the rules. -/
  | delete
      (moment : Moment)
      (tenant actor raw : String)
      (ifVersion : Option UInt64)
      (key : Option String)
  /-- A transaction committed without asking the rules. -/
  | commit
      (moment : Moment)
      (tx : Transaction)
      (actor : String)
  | createIndex (definition : IndexDefinition)
  | dropIndex (name : String)
  | loadRules (rules : RuleSet)
  | sweep (instant : Nat)

/-- Whether an action declares or removes an index. -/
def Action.isIndexing : Action → Bool
  | createIndex _ => true
  | dropIndex _ => true
  | _ => false

/-- The database after an action. -/
def after
    (db : Database) :
    Action → Database
  | .execute moment freshId requester operation =>
      (db.execute moment freshId requester operation).2
  | .create moment tenant actor raw data key =>
      { db with store := (db.store.create moment tenant actor raw data key).2 }
  | .update moment tenant actor raw data ifVersion merge key =>
      { db with store := (db.store.update moment tenant actor raw data ifVersion merge key).2 }
  | .delete moment tenant actor raw ifVersion key =>
      { db with store := (db.store.delete moment tenant actor raw ifVersion key).2 }
  | .commit moment tx actor => { db with store := (db.store.commit moment tx actor).2 }
  | .createIndex definition => (db.createIndex definition).2
  | .dropIndex name => (db.dropIndex name).2
  | .loadRules rules => db.loadRules rules
  | .sweep instant => (db.sweep instant).2

/-- The database after some actions, one after the other. -/
def run
    (db : Database)
    (actions : List Action) :
    Database :=
  actions.foldl after db

/-- The databases that can come about. -/
inductive Reachable : Database → Prop
  | opened
      {settings : Settings}
      {rules : RuleSet}
      {db : Database}
      (h : Database.new settings rules = .ok db) :
      Reachable db
  | step
      {db : Database}
      (h : Reachable db)
      (action : Action) :
      Reachable (db.after action)

/-- Actions lead from reachable databases to reachable ones. -/
theorem Reachable.run
    {db : Database}
    (h : Reachable db)
    (actions : List Action) :
    Reachable (db.run actions) := by
  induction actions generalizing db with
  | nil =>
      exact h
  | cons action rest ih =>
      exact ih (h.step action)

/-! ### Actions on the store -/

/-- Judging an access changes nothing but the guard. -/
theorem authorize_snd
    (db : Database)
    (instant : Nat)
    (requester : Requester)
    (kind : AccessKind)
    (path : String)
    (resource : Option Document)
    (payload : Option Json) :
    ∃ guard, (db.authorize instant requester kind path resource payload).2 = { db with guard } := by
  unfold authorize
  split
  · exact ⟨db.guard, rfl⟩
  · split
    · exact ⟨db.guard, rfl⟩
    · dsimp only
      split <;> exact ⟨_, rfl⟩

@[simp] theorem store_authorize
    (db : Database)
    (instant : Nat)
    (requester : Requester)
    (kind : AccessKind)
    (path : String)
    (resource : Option Document)
    (payload : Option Json) :
    (db.authorize instant requester kind path resource payload).2.store = db.store := by
  obtain ⟨guard, h⟩ := db.authorize_snd instant requester kind path resource payload
  rw [h]

@[simp] theorem store_onStore
    {α : Type}
    (db : Database)
    (outcome : α → Outcome)
    (result : Except StoreError α × Store) :
    (db.onStore outcome result).2.store = result.2 := by
  unfold onStore
  split <;> rfl

/-- An access that was judged goes on with the same store, or leaves it alone. -/
theorem accessing_store
    {motive : Store → Prop}
    (db : Database)
    (instant : Nat)
    (requester : Requester)
    (kind : AccessKind)
    (raw : String)
    (payload : Option Json)
    (next : Database → DocumentPath → Option Document → Response)
    (hstay : motive db.store)
    (hnext : ∀ (db' : Database) (path : DocumentPath) (current : Option Document),
      db'.store = db.store → motive (next db' path current).2.store) :
    motive (db.accessing instant requester kind raw payload next).2.store := by
  unfold accessing
  split
  · exact hstay
  · next path _ =>
      dsimp only
      have hstore := db.store_authorize instant requester kind raw
        (db.store.find? requester.tenant path) payload
      split <;> rename_i db' hauthorize <;> rw [hauthorize] at hstore
      · rw [show db'.store = db.store from hstore]
        exact hstay
      · exact hnext db' path _ hstore

/-- Judging a query leaves the store alone. -/
theorem store_listing
    (db : Database)
    (instant : Nat)
    (requester : Requester)
    (query : Query)
    (next : QuerySpec → Except IndexError Outcome) :
    (db.listing instant requester query next).2.store = db.store := by
  unfold listing
  dsimp only
  have hstore := db.store_authorize instant requester .list
    (listPath requester.tenant query.collection) none none
  split <;> rename_i db' hauthorize <;> rw [hauthorize] at hstore
  · exact hstore
  · split <;> exact hstore

/-- Judging the reads of a commit leaves the store alone. -/
theorem store_declareReads
    (instant : Nat)
    (requester : Requester)
    (reads : List ReadVersion)
    (tx : Transaction)
    (db : Database) :
    (declareReads instant requester reads tx db).2.store = db.store := by
  induction reads generalizing tx db with
  | nil =>
      rfl
  | cons read rest ih =>
      have hstore := db.store_authorize instant requester .get read.path.text
        (db.store.find? requester.tenant read.path) none
      unfold declareReads
      dsimp only
      split <;> rename_i db' hauthorize <;> rw [hauthorize] at hstore
      · exact hstore
      · exact (ih _ db').trans hstore

/-- Judging the writes of a commit leaves the store alone. -/
theorem store_gatherWrites
    (instant : Nat)
    (requester : Requester)
    (writes : List Write)
    (tx : Transaction)
    (db : Database) :
    (gatherWrites instant requester writes tx db).2.store = db.store := by
  induction writes generalizing tx db with
  | nil =>
      rfl
  | cons write rest ih =>
      have hstore := db.store_authorize instant requester (accessOf write) write.path.text
        (db.store.find? requester.tenant write.path) write.payload?
      unfold gatherWrites
      dsimp only
      split <;> rename_i db' hauthorize <;> rw [hauthorize] at hstore
      · exact hstore
      · split
        · exact hstore
        · exact (ih _ db').trans hstore

/-- A commit that was judged is made of moves of the store. -/
theorem moves_commit
    (db : Database)
    (moment : Moment)
    (requester : Requester)
    (id : String)
    (reads : List ReadVersion)
    (writes : List Write) :
    Store.Moves db.store (db.commit moment requester id reads writes).2.store := by
  unfold commit
  dsimp only
  have hreads := store_declareReads moment.instant requester reads
    (Transaction.begin requester.tenant id db.store.transactionLimit) db
  split <;> rename_i result db' hdeclare <;> rw [hdeclare] at hreads
  · rw [show db'.store = db.store from hreads]
  · have hwrites := store_gatherWrites moment.instant requester writes result db'
    split <;> rename_i tx db'' hgather <;> rw [hgather] at hwrites
    · rw [show db''.store = db.store from hwrites.trans hreads]
    · rw [store_onStore, ← show db''.store = db.store from hwrites.trans hreads]
      exact Store.moves_commit _ _ _ _

/-- A write that was judged is made of moves of the store. -/
theorem moves_writing
    (db : Database)
    (moment : Moment)
    (requester : Requester)
    (kind : AccessKind)
    (raw : String)
    (payload : Option Json)
    (key : Option String)
    (writeTo : DocumentPath → Write) :
    Store.Moves db.store
      (db.writing moment requester kind raw payload key writeTo).2.store := by
  unfold writing
  refine accessing_store db moment.instant requester kind raw payload _ .refl ?_
  intro db' path current hstore
  rw [store_onStore, ← hstore]
  exact Store.moves_write _ _ _ _ _ _

/-- A request is made of moves of the store. -/
theorem moves_execute
    (db : Database)
    (moment : Moment)
    (freshId : String)
    (requester : Requester)
    (operation : Operation) :
    Store.Moves db.store (db.execute moment freshId requester operation).2.store := by
  cases operation with
  | get raw =>
      rw [execute]
      refine accessing_store db moment.instant requester .get raw none _ .refl ?_
      intro db' path current hstore
      cases current <;> rw [hstore]
  | create raw data key =>
      rw [execute]
      exact db.moves_writing moment requester .create raw (some data) key _
  | update raw data ifVersion merge key =>
      rw [execute]
      exact db.moves_writing moment requester .update raw (some data) key _
  | delete raw ifVersion key =>
      rw [execute]
      exact db.moves_writing moment requester .delete raw none key _
  | query query =>
      rw [execute, store_listing]
  | explain query =>
      rw [execute, store_listing]
  | commit transaction reads writes =>
      rw [execute]
      exact db.moves_commit moment requester (transaction.getD freshId) reads writes

/-- Every action but those on indexes is made of moves of the store. -/
theorem moves_after
    (db : Database)
    {action : Action}
    (h : action.isIndexing = false) :
    Store.Moves db.store (db.after action).store := by
  cases action with
  | execute moment freshId requester operation =>
      exact db.moves_execute moment freshId requester operation
  | create moment tenant actor raw data key =>
      simp only [after, Store.create]
      split
      · exact .refl
      · exact Store.moves_write _ _ _ _ _ _
  | update moment tenant actor raw data ifVersion merge key =>
      simp only [after, Store.update]
      split
      · exact .refl
      · exact Store.moves_write _ _ _ _ _ _
  | delete moment tenant actor raw ifVersion key =>
      simp only [after, Store.delete]
      split
      · exact .refl
      · exact Store.moves_write _ _ _ _ _ _
  | commit moment tx actor =>
      exact Store.moves_commit _ _ _ _
  | createIndex definition =>
      cases h
  | dropIndex name =>
      cases h
  | loadRules rules =>
      exact .refl
  | sweep instant =>
      exact Store.moves_sweep _ _

theorem store_new
    {settings : Settings}
    {rules : RuleSet}
    {db : Database}
    (h : Database.new settings rules = .ok db) :
    settings.fault? = none ∧
      db.store =
        Store.new settings.store.maxTransactionOps.toNat
          settings.store.idempotencyCapacity.toNat
          (settings.store.idempotencyTtlSecs.toNat * Guard.instantsPerSecond)
          settings.index.tenantField := by
  unfold Database.new at h
  split at h
  · cases h
  · next hfault =>
      cases h
      exact ⟨hfault, rfl⟩

/--
What is kept by the moves of a store and by the declaration and the removal of
indexes is kept by every action.
-/
theorem preserves_store_after
    {motive : Store → Prop}
    (hmove : ∀ {s s' : Store}, Store.Move s s' → motive s → motive s')
    (hcreate : ∀ (s : Store) (definition : IndexDefinition),
      motive s → motive (s.createIndex definition).2)
    (hdrop : ∀ (s : Store) (name : String), motive s → motive (s.dropIndex name).2)
    {db : Database}
    (h : motive db.store)
    (action : Action) :
    motive (db.after action).store := by
  by_cases hindexing : action.isIndexing = true
  · cases action with
    | createIndex definition =>
        exact hcreate db.store definition h
    | dropIndex name =>
        exact hdrop db.store name h
    | _ =>
        cases hindexing
  · exact (db.moves_after (Bool.eq_false_iff.2 hindexing)).preserves hmove h

/--
What holds of a new store and is kept by the moves of a store and by the
declaration and the removal of indexes holds of the store of every reachable
database.
-/
theorem Reachable.store_induction
    {motive : Store → Prop}
    (hnew : ∀ (limit capacity lifetime : Nat) (tenantField : String),
      motive (Store.new limit capacity lifetime tenantField))
    (hmove : ∀ {s s' : Store}, Store.Move s s' → motive s → motive s')
    (hcreate : ∀ (s : Store) (definition : IndexDefinition),
      motive s → motive (s.createIndex definition).2)
    (hdrop : ∀ (s : Store) (name : String), motive s → motive (s.dropIndex name).2)
    {db : Database}
    (h : Reachable db) :
    motive db.store := by
  induction h with
  | opened hopened =>
      rw [(store_new hopened).2]
      exact hnew _ _ _ _
  | step _ action ih =>
      exact preserves_store_after hmove hcreate hdrop ih action

end Database
end DocumentStore
