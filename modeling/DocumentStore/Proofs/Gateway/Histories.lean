import DocumentStore.Proofs.Gateway.Mediation
import DocumentStore.Proofs.Store.Tenancy

/-!
# What an action does for a tenant

An action writes for at most one tenant, at a moment, and takes no more readings
of the wall clock than it has writes.  Whatever property a store keeps while
writes of that tenant are carried out, it keeps when the action is over.
-/

namespace DocumentStore

/-- How many writes an operation asks for. -/
def Operation.writeCount : Operation → Nat
  | .create .. => 1
  | .update .. => 1
  | .delete .. => 1
  | .commit _ _ writes => writes.length
  | _ => 0

namespace Database

/-- Work for a tenant: when it is done, and how many writes it has. -/
structure Task where
  tenant : String
  moment : Moment
  writes : Nat

/-- The readings of the wall clock for a task. -/
def Task.readings (task : Task) : List Timestamp :=
  (List.range task.writes).map task.moment.wall

@[simp] theorem Task.length_readings (task : Task) :
    task.readings.length = task.writes := by
  simp [readings]

namespace Action

/-- The work that an action does for a tenant, if it does any. -/
def task? : Action → Option Task
  | .execute moment _ requester operation => some ⟨requester.tenant, moment, operation.writeCount⟩
  | .create moment tenant .. => some ⟨tenant, moment, 1⟩
  | .update moment tenant .. => some ⟨tenant, moment, 1⟩
  | .delete moment tenant .. => some ⟨tenant, moment, 1⟩
  | .commit moment tx _ => some ⟨tx.tenant, moment, tx.writes.length⟩
  | _ => none

/-- The instant of an action, if it needs one. -/
def instant? : Action → Option Nat
  | .sweep instant => some instant
  | action => action.task?.map fun task => task.moment.instant

/-- The readings of the wall clock for an action. -/
def readings (action : Action) : List Timestamp :=
  match action.task? with
  | some task => task.readings
  | none => []

/-- Whether an action is work for a tenant, or for none. -/
def concerns
    (tenant : String)
    (action : Action) :
    Bool :=
  match action.task? with
  | some task => task.tenant = tenant
  | none => true

end Action

variable {db : Database} {action : Action} {task : Task}

theorem concerns_iff
    {tenant : String}
    (htask : action.task? = some task) :
    action.concerns tenant ↔ task.tenant = tenant := by
  rw [Action.concerns, htask]
  exact decide_eq_true_iff

/-- What the writes of its tenant keep, an operation keeps that is carried out. -/
theorem keeps_carryOut
    {moment : Moment}
    {requester : Requester}
    {operation : Operation}
    {P : Nat → Store → Prop}
    (hkeeps : Store.Keeps requester.tenant moment operation.writeCount P)
    (h : P 0 db.store)
    (freshId : String) :
    ∃ n, P n (db.carryOut moment freshId requester operation).2.store := by
  cases operation with
  | get raw =>
      rw [carryOut]
      split
      · exact ⟨0, h⟩
      · split <;> exact ⟨0, h⟩
  | create raw data key =>
      rw [carryOut, store_onStore]
      exact hkeeps.create Nat.one_pos h requester.actor raw data key
  | update raw data ifVersion merge key =>
      rw [carryOut, store_onStore]
      exact hkeeps.update Nat.one_pos h requester.actor raw data ifVersion merge key
  | delete raw ifVersion key =>
      rw [carryOut, store_onStore]
      exact hkeeps.delete Nat.one_pos h requester.actor raw ifVersion key
  | query query =>
      rw [carryOut]
      split <;> exact ⟨0, h⟩
  | explain query =>
      rw [carryOut]
      split <;> exact ⟨0, h⟩
  | commit transaction reads writes =>
      rw [carryOut, store_onStore]
      exact hkeeps.commit (Transaction.tenant_declared ..) (Nat.le_refl _) h requester.actor

/-- What the writes of its tenant keep, an action keeps. -/
theorem keeps_after
    (htask : action.task? = some task)
    {P : Nat → Store → Prop}
    (hkeeps : Store.Keeps task.tenant task.moment task.writes P)
    (h : P 0 db.store) :
    ∃ n, P n (db.after action).store := by
  cases action with
  | execute moment freshId requester operation =>
      obtain rfl := Option.some.inj htask
      have hanswered := db.answered_execute moment freshId requester operation
      rw [Database.after]
      generalize db.execute moment freshId requester operation = response at hanswered ⊢
      cases hanswered with
      | turnedDown hasked =>
          exact ⟨0, hasked.store_eq ▸ h⟩
      | @carriedOut db' hgranted =>
          exact keeps_carryOut hkeeps (hgranted.asked.store_eq ▸ h) freshId
  | create moment tenant actor raw data key =>
      obtain rfl := Option.some.inj htask
      rw [Database.after]
      dsimp only at hkeeps ⊢
      exact hkeeps.create Nat.one_pos h actor raw data key
  | update moment tenant actor raw data ifVersion merge key =>
      obtain rfl := Option.some.inj htask
      rw [Database.after]
      dsimp only at hkeeps ⊢
      exact hkeeps.update Nat.one_pos h actor raw data ifVersion merge key
  | delete moment tenant actor raw ifVersion key =>
      obtain rfl := Option.some.inj htask
      rw [Database.after]
      dsimp only at hkeeps ⊢
      exact hkeeps.delete Nat.one_pos h actor raw ifVersion key
  | commit moment tx actor =>
      obtain rfl := Option.some.inj htask
      exact hkeeps.commit rfl (Nat.le_refl _) h actor
  | _ =>
      cases htask

/-- Actions that are no work for a tenant leave the count of displaced replies. -/
theorem evictions_after_of_no_task
    (h : action.task? = none) :
    (db.after action).store.replies.stats.evictions = db.store.replies.stats.evictions := by
  cases action with
  | createIndex definition =>
      obtain ⟨catalog, hcatalog, -⟩ := db.store.exists_catalog_of_createIndex definition
      have hstore : (db.after (.createIndex definition)).store = { db.store with catalog } := hcatalog
      rw [hstore]
  | dropIndex name =>
      obtain ⟨catalog, hcatalog, -⟩ := db.store.exists_catalog_of_dropIndex name
      have hstore : (db.after (.dropIndex name)).store = { db.store with catalog } := hcatalog
      rw [hstore]
  | loadRules rules =>
      rfl
  | sweep instant =>
      rfl
  | _ =>
      cases h

theorem evictions_le_after
    (db : Database)
    (action : Action) :
    db.store.replies.stats.evictions ≤ (db.after action).store.replies.stats.evictions := by
  cases htask : action.task? with
  | none =>
      exact Nat.le_of_eq (evictions_after_of_no_task htask).symm
  | some task =>
      obtain ⟨-, hle⟩ := keeps_after htask
        (Store.keeps_evictions task.tenant task.moment task.writes
          db.store.replies.stats.evictions) (Nat.le_refl _)
      exact hle

theorem evictions_le_run
    (db : Database)
    (history : List Action) :
    db.store.replies.stats.evictions ≤ (db.run history).store.replies.stats.evictions := by
  induction history generalizing db with
  | nil =>
      exact Nat.le_refl _
  | cons action rest ih =>
      exact Nat.le_trans (db.evictions_le_after action) (ih (db.after action))

end Database
end DocumentStore
