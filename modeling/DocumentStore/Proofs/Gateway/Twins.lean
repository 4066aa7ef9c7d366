import DocumentStore.Proofs.Gateway.Simulation

/-!
# Requests do not look at the indexes to write

Databases that differ in their catalogs only are so after every action that
is not about indexes: the rules judge by the documents, and writes do not look
at the catalog.  So an index may as well be declared after such actions as
before them.
-/

namespace DocumentStore
namespace Database

open Store (CatalogRelation)

/-- Databases with twin stores. -/
def Twins
    (related : CatalogRelation)
    (d e : Database) :
    Prop :=
  ∃ store, e = { d with store } ∧ Store.Twins related d.store store

section

variable {related : CatalogRelation} {d e : Database}

theorem Twins.find?_eq
    (h : Twins related d e)
    (tenant : String)
    (path : DocumentPath) :
    e.store.find? tenant path = d.store.find? tenant path := by
  obtain ⟨store, rfl, hstore⟩ := h
  unfold Store.find?
  rw [hstore.documents_eq]

/-- Twins judge an access alike. -/
theorem Twins.authorize
    (h : Twins related d e)
    (instant : Nat)
    (requester : Requester)
    (kind : AccessKind)
    (path : String)
    (resource : Option Document)
    (payload : Option Json) :
    AgreeIn (Twins related) (d.authorize instant requester kind path resource payload)
      (e.authorize instant requester kind path resource payload) := by
  obtain ⟨store, rfl, hstore⟩ := h
  have hcontext : ({ d with store } : Database).accessContext requester resource payload =
      d.accessContext requester resource payload := by
    obtain ⟨catalog, rfl, -⟩ := hstore
    rfl
  unfold Database.authorize
  cases foreign? requester path with
  | some refusal =>
      exact ⟨_, _, _, rfl, rfl, store, rfl, hstore⟩
  | none =>
      by_cases hservice : requester.service = true
      · simp only [if_pos hservice]
        exact ⟨_, _, _, rfl, rfl, store, rfl, hstore⟩
      · simp only [if_neg hservice, hcontext]
        generalize d.guard.evaluate instant kind path
          (d.accessContext requester resource payload) = evaluated
        obtain ⟨ruling, guard⟩ := evaluated
        cases ruling.decision with
        | allow rule =>
            exact ⟨_, _, _, rfl, rfl, store, rfl, hstore⟩
        | deny reason =>
            exact ⟨_, _, _, rfl, rfl, store, rfl, hstore⟩

theorem judgesAlike_twins
    (requester : Requester)
    (instant : Nat) :
    JudgesAlike requester instant (Twins related) where
  find? h path := h.find?_eq requester.tenant path
  authorize h kind path resource payload :=
    h.authorize instant requester kind path resource payload

theorem Twins.onStore
    (h : Twins related d e)
    {α : Type}
    (outcome : α → Outcome)
    {a b : Except StoreError α × Store}
    (hagree : Store.Agree related a b) :
    AgreeIn (Twins related) (d.onStore outcome a) (e.onStore outcome b) := by
  obtain ⟨store, rfl, -⟩ := h
  exact agreeIn_onStore hagree (fun s t hst => ⟨t, rfl, hst⟩) outcome

/-- A query leaves twins. -/
theorem Twins.listing
    (h : Twins related d e)
    (instant : Nat)
    (requester : Requester)
    (query : Query)
    (next next' : QuerySpec → Except IndexError Outcome) :
    Twins related (d.listing instant requester query next).2
      (e.listing instant requester query next').2 := by
  unfold Database.listing
  obtain ⟨verdict, d', e', hd, he, h'⟩ := h.authorize instant requester .list
    (listPath requester.tenant query.collection) none none
  simp only [hd, he]
  cases verdict with
  | some refusal =>
      exact h'
  | none =>
      -- the answers may differ, but nothing is changed by them
      cases next { query with tenant := requester.tenant } <;>
        cases next' { query with tenant := requester.tenant } <;> exact h'

variable (hkept : related.Kept)

include hkept

/-- A commit that is judged leaves twins. -/
theorem Twins.commit
    (h : Twins related d e)
    (moment : Moment)
    (requester : Requester)
    (id : String)
    (reads : List ReadVersion)
    (writes : List Write) :
    Twins related (d.commit moment requester id reads writes).2
      (e.commit moment requester id reads writes).2 := by
  have hlimit : e.store.transactionLimit = d.store.transactionLimit := by
    obtain ⟨_, rfl, _, rfl, _⟩ := h
    rfl
  refine ((judgesAlike_twins requester moment.instant).commit rfl (fun _ _ hde => hde) h hlimit
    id reads writes ?_).snd
  rintro d' e' tx ⟨store, rfl, hstore⟩ - -
  exact Twins.onStore ⟨store, rfl, hstore⟩ .committed
    (hstore.commit hkept moment tx requester.actor)

/-- A single write that is judged leaves twins. -/
theorem Twins.writing
    (h : Twins related d e)
    (moment : Moment)
    (requester : Requester)
    (kind : AccessKind)
    (raw : String)
    (payload : Option Json)
    (key : Option String)
    (writeTo : DocumentPath → Write) :
    Twins related (d.writing moment requester kind raw payload key writeTo).2
      (e.writing moment requester kind raw payload key writeTo).2 := by
  refine ((judgesAlike_twins requester moment.instant).writing rfl (fun _ _ hde => hde) h kind
    raw payload key writeTo ?_).snd
  rintro d' e' write ⟨store, rfl, hstore⟩
  exact Twins.onStore ⟨store, rfl, hstore⟩ outcomeOf
    (hstore.write hkept moment requester.tenant requester.actor write key)

/-- A request leaves twins. -/
theorem Twins.execute
    (h : Twins related d e)
    (moment : Moment)
    (freshId : String)
    (requester : Requester)
    (operation : Operation) :
    Twins related (d.execute moment freshId requester operation).2
      (e.execute moment freshId requester operation).2 := by
  cases operation with
  | get raw =>
      rw [Database.execute, Database.execute]
      refine ((judgesAlike_twins requester moment.instant).accessing (fun _ _ hde => hde) h .get
        raw none ?_).snd
      intro d' e' path current h'
      cases current <;> exact ⟨_, d', e', rfl, rfl, h'⟩
  | create raw data key =>
      rw [Database.execute, Database.execute]
      exact h.writing hkept moment requester .create raw (some data) key _
  | update raw data ifVersion merge key =>
      rw [Database.execute, Database.execute]
      exact h.writing hkept moment requester .update raw (some data) key _
  | delete raw ifVersion key =>
      rw [Database.execute, Database.execute]
      exact h.writing hkept moment requester .delete raw none key _
  | query query =>
      rw [Database.execute, Database.execute]
      exact h.listing moment.instant requester query _ _
  | explain query =>
      rw [Database.execute, Database.execute]
      exact h.listing moment.instant requester query _ _
  | commit transaction reads writes =>
      rw [Database.execute, Database.execute]
      exact h.commit hkept moment requester (transaction.getD freshId) reads writes

/-- Every action but those on indexes leaves twins. -/
theorem Twins.after
    (h : Twins related d e)
    {action : Action}
    (hindexing : action.isIndexing = false) :
    Twins related (d.after action) (e.after action) := by
  cases action with
  | execute moment freshId requester operation =>
      exact h.execute hkept moment freshId requester operation
  | create moment tenant actor raw data key =>
      obtain ⟨store, rfl, hstore⟩ := h
      obtain ⟨result, s, t, hs, ht, hst⟩ := hstore.create hkept moment tenant actor raw data key
      simp only [Database.after, hs, ht]
      exact ⟨t, rfl, hst⟩
  | update moment tenant actor raw data ifVersion merge key =>
      obtain ⟨store, rfl, hstore⟩ := h
      obtain ⟨result, s, t, hs, ht, hst⟩ := hstore.update hkept moment tenant actor raw data ifVersion merge key
      simp only [Database.after, hs, ht]
      exact ⟨t, rfl, hst⟩
  | delete moment tenant actor raw ifVersion key =>
      obtain ⟨store, rfl, hstore⟩ := h
      obtain ⟨result, s, t, hs, ht, hst⟩ := hstore.delete hkept moment tenant actor raw ifVersion key
      simp only [Database.after, hs, ht]
      exact ⟨t, rfl, hst⟩
  | commit moment tx actor =>
      obtain ⟨store, rfl, hstore⟩ := h
      obtain ⟨result, s, t, hs, ht, hst⟩ := hstore.commit hkept moment tx actor
      simp only [Database.after, hs, ht]
      exact ⟨t, rfl, hst⟩
  | createIndex definition =>
      cases hindexing
  | dropIndex name =>
      cases hindexing
  | loadRules rules =>
      obtain ⟨store, rfl, hstore⟩ := h
      exact ⟨store, rfl, hstore⟩
  | sweep instant =>
      obtain ⟨store, rfl, catalog, rfl, hrelated⟩ := h
      exact ⟨_, rfl, catalog, rfl, hrelated⟩

end

end Database
end DocumentStore
