import DocumentStore.Proofs.Gateway.Partition
import DocumentStore.Proofs.Store.Refusals

/-!
# Requests that fail change nothing

A request that is turned down has only been judged, and judging leaves the
store alone.  A request that is granted and then fails is a call that fails, or
it reads only.  In all cases the documents, the log and the indexes are those
before the request, and no reply was recorded.
-/

namespace DocumentStore
namespace Database

variable {db : Database} {moment : Moment} {freshId : String} {requester : Requester}
  {operation : Operation}

/-- A request on the store that fails spares what the store's own answer spares. -/
theorem spared_onStore
    {α : Type}
    {outcome : α → Outcome}
    {result : Except StoreError α × Store}
    {e : RequestError}
    (hspared : ∀ cause, result.1 = .error cause → Store.Spared db.store result.2)
    (herror : (db.onStore outcome result).1 = .error e) :
    Store.Spared db.store (db.onStore outcome result).2.store := by
  rw [store_onStore]
  obtain ⟨answer, after⟩ := result
  cases answer with
  | error cause =>
      exact hspared cause rfl
  | ok a =>
      cases herror

/-- An operation that fails when it is carried out spares the store. -/
theorem spared_carryOut
    {e : RequestError}
    (herror : (db.carryOut moment freshId requester operation).1 = .error e) :
    Store.Spared db.store (db.carryOut moment freshId requester operation).2.store := by
  have hcarried := db.carried_carryOut moment freshId requester operation
  generalize callOf? requester freshId db.store.transactionLimit operation = call? at hcarried
  generalize db.carryOut moment freshId requester operation = response at hcarried herror ⊢
  cases hcarried with
  | reads answer =>
      exact .refl _
  | calls hserve =>
      exact spared_onStore (fun _ => Store.spared_of_serve_eq hserve) herror

/-- A request that fails spares the store. -/
theorem spared_execute
    {e : RequestError}
    (herror : (db.execute moment freshId requester operation).1 = .error e) :
    Store.Spared db.store (db.execute moment freshId requester operation).2.store := by
  have hanswered := db.answered_execute moment freshId requester operation
  generalize db.execute moment freshId requester operation = response at hanswered herror ⊢
  cases hanswered with
  | turnedDown hasked =>
      rw [hasked.store_eq]
      exact .refl _
  | carriedOut hgranted =>
      rw [← hgranted.asked.store_eq]
      exact spared_carryOut herror

/--
A request that fails, for whatever reason and in whatever state, leaves the
documents, the change log and the indexes as they were and records no reply.
-/
theorem execute_error_changes_nothing
    (db : Database)
    (moment : Moment)
    (freshId : String)
    (requester : Requester)
    (operation : Operation)
    (e : RequestError)
    (herror : (db.execute moment freshId requester operation).1 = .error e) :
    (db.execute moment freshId requester operation).2.store.documents = db.store.documents ∧
    (db.execute moment freshId requester operation).2.store.log = db.store.log ∧
    (db.execute moment freshId requester operation).2.store.catalog = db.store.catalog ∧
    ∀ entry ∈ (db.execute moment freshId requester operation).2.store.replies.entries,
      entry ∈ db.store.replies.entries :=
  have hspared := spared_execute herror
  ⟨hspared.documents_eq, hspared.log_eq, hspared.catalog_eq, hspared.replies⟩

/-- An order that is not there. -/
def secondOrder : DocumentPath := ⟨"orders/2", by decide +kernel⟩

/-- A commit that creates an order and then one that is there. -/
def clashing : Operation :=
  .commit (some "t2") [] [.create secondOrder (.ofNat 2), .create firstOrder (.ofNat 3)]

/-- A commit that fails at its second write has not carried out its first. -/
theorem clashing_changes_nothing :
    (ordered.execute ⟨5, fun _ => ⟨9⟩⟩ "u" (.ofService "acme") clashing).1 =
      .error (.store (.aborted "t2" 1 (.alreadyExists "acme" "orders/1"))) ∧
    ordered.store.log.entries.length = 1 ∧
    (ordered.execute ⟨5, fun _ => ⟨9⟩⟩ "u" (.ofService "acme") clashing).2.store.log =
      ordered.store.log ∧
    (ordered.execute ⟨5, fun _ => ⟨9⟩⟩ "u" (.ofService "acme") clashing).2.store.find? "acme"
      secondOrder = none := by
  have herror : (ordered.execute ⟨5, fun _ => ⟨9⟩⟩ "u" (.ofService "acme") clashing).1 =
      .error (.store (.aborted "t2" 1 (.alreadyExists "acme" "orders/1"))) := rfl
  obtain ⟨hdocuments, hlog, -, -⟩ :=
    execute_error_changes_nothing ordered ⟨5, fun _ => ⟨9⟩⟩ "u" (.ofService "acme") clashing _
      herror
  refine ⟨herror, rfl, hlog, ?_⟩
  unfold Store.find?
  rw [hdocuments]
  decide +kernel

end Database
end DocumentStore
