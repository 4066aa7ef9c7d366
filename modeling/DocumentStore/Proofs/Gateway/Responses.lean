import DocumentStore.Proofs.Gateway.Histories
import DocumentStore.Proofs.Gateway.Partition
import DocumentStore.Proofs.Gateway.Refusals
import DocumentStore.Proofs.Query.Answer
import DocumentStore.Proofs.Store.Recorded

/-!
# What requests are answered with

A request that succeeds hands out documents of its own tenant only.  A document
that is read stands at the path that was named, and documents that are listed
are of the collection that was named.  A write is answered with a document at
its path unless a reply is recorded under its key: replies are recorded by key
alone, so the key answers with the write that it was first used for, and with
what the log tells of it.  So does the id of a commit, and, when its receipt
has been dropped, each of the keys derived from the id.
-/

namespace DocumentStore

/-- The documents that an outcome hands out. -/
def Outcome.handedOut : Outcome → List Document
  | .document doc => [doc]
  | .deleted _ => []
  | .documents docs => docs
  | .plan _ => []
  | .committed receipt => receipt.results.filterMap WriteResult.document?

namespace Database

/-! ### Requests and other actions as calls -/

/-- What an operation does to the store, a call does, if it does anything. -/
theorem store_carryOut
    (db : Database)
    (moment : Moment)
    (freshId : String)
    (requester : Requester)
    (operation : Operation) :
    (db.carryOut moment freshId requester operation).2.store = db.store ∨
      ∃ call, (db.carryOut moment freshId requester operation).2.store =
        (db.store.serve moment call).2 := by
  have hcarried := db.carried_carryOut moment freshId requester operation
  generalize callOf? requester freshId db.store.transactionLimit operation = call? at hcarried
  generalize db.carryOut moment freshId requester operation = response at hcarried ⊢
  cases hcarried with
  | reads answer =>
      exact .inl rfl
  | @calls α outcome answer served call hserve =>
      refine .inr ⟨call, ?_⟩
      rw [store_onStore, hserve, Store.snd_answering]

/-- What a request does to the store, a call does, if it does anything. -/
theorem store_execute
    (db : Database)
    (moment : Moment)
    (freshId : String)
    (requester : Requester)
    (operation : Operation) :
    (db.execute moment freshId requester operation).2.store = db.store ∨
      ∃ call, (db.execute moment freshId requester operation).2.store =
        (db.store.serve moment call).2 := by
  have hanswered := db.answered_execute moment freshId requester operation
  generalize db.execute moment freshId requester operation = response at hanswered ⊢
  cases hanswered with
  | turnedDown hasked =>
      exact .inl hasked.store_eq
  | @carriedOut db' hgranted =>
      rw [← hgranted.asked.store_eq]
      exact db'.store_carryOut moment freshId requester operation

/--
An action leaves the store alone, serves a call at its instant, or declares or
removes an index.
-/
inductive Effect
    (s : Store)
    (instant? : Option Nat) :
    Store → Prop
  | nothing : Effect s instant? s
  | serves
      (moment : Moment)
      (call : Store.Call)
      (hinstant : instant? = some moment.instant) :
      Effect s instant? (s.serve moment call).2
  | createIndex (definition : IndexDefinition) :
      Effect s instant? (s.createIndex definition).2
  | dropIndex (name : String) :
      Effect s instant? (s.dropIndex name).2

/-- Every action has one of the effects. -/
theorem effect_after
    (db : Database)
    (action : Action) :
    Effect db.store action.instant? (db.after action).store := by
  cases action with
  | execute moment freshId requester operation =>
      rcases db.store_execute moment freshId requester operation with hsame | ⟨call, hcall⟩
      · rw [after, hsame]
        exact .nothing
      · rw [after, hcall]
        exact .serves moment call rfl
  | create moment tenant actor raw data key =>
      exact .serves moment (.create tenant actor raw data key) rfl
  | update moment tenant actor raw data ifVersion merge key =>
      exact .serves moment (.update tenant actor raw data ifVersion merge key) rfl
  | delete moment tenant actor raw ifVersion key =>
      exact .serves moment (.delete tenant actor raw ifVersion key) rfl
  | commit moment tx actor =>
      exact .serves moment (.commit tx actor) rfl
  | createIndex definition =>
      exact .createIndex definition
  | dropIndex name =>
      exact .dropIndex name
  | loadRules rules =>
      exact .nothing
  | sweep instant =>
      exact .serves ⟨instant, fun _ => Timestamp.epoch⟩ .sweep rfl

/--
What holds of a new store and is kept by calls and by the declaration and the
removal of indexes holds of the store of every reachable database.
-/
theorem Reachable.call_induction
    {motive : Store → Prop}
    (hnew : ∀ (limit capacity lifetime : Nat) (tenantField : String),
      motive (Store.new limit capacity lifetime tenantField))
    (hserve : ∀ (s : Store) (moment : Moment) (call : Store.Call),
      motive s → motive (s.serve moment call).2)
    (hcreate : ∀ (s : Store) (definition : IndexDefinition),
      motive s → motive (s.createIndex definition).2)
    (hdrop : ∀ (s : Store) (name : String), motive s → motive (s.dropIndex name).2)
    {db : Database}
    (h : Reachable db) :
    motive db.store := by
  induction h with
  | opened hopened =>
      rw [(store_new hopened).2]
      exact hnew _ _ _ _
  | @step db h action ih =>
      have heffect := db.effect_after action
      generalize (db.after action).store = s at heffect ⊢
      cases heffect with
      | nothing =>
          exact ih
      | serves moment call hinstant =>
          exact hserve db.store moment call ih
      | createIndex definition =>
          exact hcreate db.store definition ih
      | dropIndex name =>
          exact hdrop db.store name ih

/-- In a reachable database the log backs every recorded reply. -/
theorem Reachable.recorded
    {db : Database}
    (h : Reachable db) :
    db.store.Recorded := by
  refine h.call_induction Store.Recorded.new (fun s moment call hs => hs.serve moment call) ?_ ?_
  · intro s definition hs
    obtain ⟨catalog, hcatalog⟩ := s.createIndex_with_catalog definition
    rw [hcatalog]
    exact ⟨hs.placed, hs.backed⟩
  · intro s name hs
    obtain ⟨catalog, hcatalog⟩ := s.dropIndex_with_catalog name
    rw [hcatalog]
    exact ⟨hs.placed, hs.backed⟩

/-! ### What an operation may be answered with -/

/-- An operation asks for a single write, on a path that it names, and brings a key or none. -/
inductive Writes :
    Operation → (key : Option String) → Write → Prop
  | create
      {raw : String}
      {data : Json}
      {key : Option String}
      {path : DocumentPath}
      (hpath : readPath raw = .ok path) :
      Writes (.create raw data key) key (.create path data)
  | update
      {raw : String}
      {data : Json}
      {ifVersion : Option UInt64}
      {merge : Bool}
      {key : Option String}
      {path : DocumentPath}
      (hpath : readPath raw = .ok path) :
      Writes (.update raw data ifVersion merge key) key (.update path data ifVersion merge)
  | delete
      {raw : String}
      {ifVersion : Option UInt64}
      {key : Option String}
      {path : DocumentPath}
      (hpath : readPath raw = .ok path) :
      Writes (.delete raw ifVersion key) key (.delete path ifVersion)

/--
What an operation of a requester may be answered with at an instant, given the
store before it and the store after it.
-/
inductive Fitting
    (before after : Store)
    (instant : Nat)
    (freshId : String)
    (requester : Requester) :
    Operation → Outcome → Prop
  /-- The document is at the path. -/
  | get
      {raw : String}
      {path : DocumentPath}
      {doc : Document}
      (hpath : readPath raw = .ok path)
      (hdoc : doc.path = path) :
      Fitting before after instant freshId requester (.get raw) (.document doc)
  /-- There is a document unless it was deleted; it is at the path, or it is the recorded one. -/
  | write
      {operation : Operation}
      {key : Option String}
      {write : Write}
      {result : WriteResult}
      (hwrites : Writes operation key write)
      (hreturned : after.Returned requester.tenant key write result)
      (hanswers : result.Answers (before.keyed? requester.tenant key instant)
        (.single write.kind result) write.path) :
      Fitting before after instant freshId requester operation (outcomeOf result)
  /-- The documents are of the collection. -/
  | query
      {query : Query}
      {docs : List Document}
      (hdocs : ∀ doc ∈ docs, doc.collection = query.collection) :
      Fitting before after instant freshId requester (.query query) (.documents docs)
  | explain
      {query : Query}
      (plan : Plan) :
      Fitting before after instant freshId requester (.explain query) (.plan plan)
  /-- The receipt is the recorded one, or its results answer the writes. -/
  | commit
      {transaction : Option String}
      {reads : List ReadVersion}
      {writes : List Write}
      {receipt : Receipt}
      (hreceipted : before.Receipted after instant
        (Transaction.declared requester.tenant (transaction.getD freshId)
          before.transactionLimit reads writes)
        receipt) :
      Fitting before after instant freshId requester (.commit transaction reads writes)
        (.committed receipt)

variable {db : Database} {moment : Moment} {freshId : String} {requester : Requester}
  {operation : Operation} {outcome : Outcome}

theorem exists_of_onStore_eq_ok
    {α : Type}
    {f : α → Outcome}
    {result : Except StoreError α × Store}
    (hok : (db.onStore f result).1 = .ok outcome) :
    ∃ a, result.1 = .ok a ∧ outcome = f a := by
  obtain ⟨answer, after⟩ := result
  cases answer with
  | error e =>
      cases hok
  | ok a =>
      exact ⟨a, rfl, (Except.ok.inj hok).symm⟩

/-- An operation that carries out a write is answered with what the write returns. -/
theorem fitting_onStore
    (h : db.store.Recorded)
    {served : Except StoreError WriteResult × Store}
    (hserved : ∀ result, served.1 = .ok result → ∃ key write, Writes operation key write ∧
      served = db.store.write moment requester.tenant requester.actor write key)
    (hok : (db.onStore outcomeOf served).1 = .ok outcome) :
    (∀ doc ∈ outcome.handedOut, doc.tenant = requester.tenant) ∧
      Fitting db.store served.2 moment.instant freshId requester operation outcome := by
  obtain ⟨result, hresult, rfl⟩ := exists_of_onStore_eq_ok hok
  obtain ⟨key, write, hwrites, rfl⟩ := hserved result hresult
  obtain ⟨-, hreturned, hanswers⟩ := Store.answers_write h hresult
  refine ⟨?_, .write hwrites hreturned hanswers⟩
  intro doc hdoc
  cases result with
  | written doc' =>
      obtain rfl := List.mem_singleton.1 hdoc
      exact (hreturned.accounts doc rfl).1
  | deleted existed =>
      cases hdoc

theorem exists_of_mem_handedOut_committed
    {receipt : Receipt}
    {doc : Document}
    (h : doc ∈ (Outcome.committed receipt).handedOut) :
    ∃ i : Nat, receipt.results[i]? = some (.written doc) := by
  obtain ⟨result, hresult, hdoc⟩ := List.mem_filterMap.1 h
  cases result with
  | written doc' =>
      cases hdoc
      exact List.getElem?_of_mem hresult
  | deleted existed =>
      cases hdoc

theorem fitting_get
    (hrecorded : db.store.Recorded)
    (after : Store)
    {raw : String}
    (hok : (db.carryOut moment freshId requester (.get raw)).1 = .ok outcome) :
    (∀ doc ∈ outcome.handedOut, doc.tenant = requester.tenant) ∧
      Fitting db.store after moment.instant freshId requester (.get raw) outcome := by
  rw [carryOut] at hok
  cases hpath : readPath raw with
  | error e =>
      rw [hpath] at hok
      cases hok
  | ok path =>
      rw [hpath] at hok
      dsimp only at hok
      split at hok
      · next doc hfind =>
          have hplaced := hrecorded.placed _ _ hfind
          cases hok
          refine ⟨?_, .get hpath hplaced.path⟩
          intro d hd
          obtain rfl := List.mem_singleton.1 hd
          exact hplaced.tenant
      · cases hok

/-- Documents that are listed are of the tenant and of the collection that was named. -/
theorem fitting_query
    (hindexed : db.store.Indexed)
    (after : Store)
    {query : Query}
    (hok : (db.carryOut moment freshId requester (.query query)).1 = .ok outcome) :
    (∀ doc ∈ outcome.handedOut, doc.tenant = requester.tenant) ∧
      Fitting db.store after moment.instant freshId requester (.query query) outcome := by
  rw [carryOut] at hok
  split at hok
  · next docs hquery =>
      cases hok
      obtain ⟨shape, index, score, -, -, -, -, rfl⟩ := hindexed.exists_plan_of_query hquery
      refine ⟨?_, .query ?_⟩
      · intro doc hdoc
        obtain ⟨-, -, -, htenant, -⟩ :=
          Store.mem_matching_iff.1 (Store.mem_matching_of_answer hdoc)
        exact htenant
      · intro doc hdoc
        obtain ⟨-, hcollection, -⟩ :=
          Store.mem_matching_iff.1 (Store.mem_matching_of_answer hdoc)
        exact hcollection
  · cases hok

/-- The documents of a receipt are of the tenant, and the receipt answers the writes. -/
theorem fitting_commit
    (hrecorded : db.store.Recorded)
    {transaction : Option String}
    {reads : List ReadVersion}
    {writes : List Write}
    (hok : (db.carryOut moment freshId requester (.commit transaction reads writes)).1 =
      .ok outcome) :
    (∀ doc ∈ outcome.handedOut, doc.tenant = requester.tenant) ∧
      Fitting db.store
        (db.carryOut moment freshId requester (.commit transaction reads writes)).2.store
        moment.instant freshId requester (.commit transaction reads writes) outcome := by
  rw [carryOut] at hok ⊢
  rw [store_onStore]
  obtain ⟨receipt, hreceipt, rfl⟩ := exists_of_onStore_eq_ok hok
  have hreceipted := (Store.receipted_commit hrecorded hreceipt).2
  refine ⟨?_, .commit hreceipted⟩
  intro doc hdoc
  obtain ⟨i, hi⟩ := exists_of_mem_handedOut_committed hdoc
  have htenant := (hreceipted.accounts i doc hi).1
  rw [Transaction.tenant_declared] at htenant
  exact htenant

/-- An operation that is carried out is answered with documents of its tenant, as is fitting. -/
theorem fitting_carryOut
    (hindexed : db.store.Indexed)
    (hrecorded : db.store.Recorded)
    (hok : (db.carryOut moment freshId requester operation).1 = .ok outcome) :
    (∀ doc ∈ outcome.handedOut, doc.tenant = requester.tenant) ∧
      Fitting db.store (db.carryOut moment freshId requester operation).2.store moment.instant
        freshId requester operation outcome := by
  cases operation with
  | get raw =>
      exact fitting_get hrecorded _ hok
  | create raw data key =>
      rw [carryOut] at hok ⊢
      rw [store_onStore]
      refine fitting_onStore hrecorded (fun result hresult => ?_) hok
      unfold Store.create at hresult ⊢
      split at hresult
      · cases hresult
      · next path hpath =>
          exact ⟨_, _, .create hpath, rfl⟩
  | update raw data ifVersion merge key =>
      rw [carryOut] at hok ⊢
      rw [store_onStore]
      refine fitting_onStore hrecorded (fun result hresult => ?_) hok
      unfold Store.update at hresult ⊢
      split at hresult
      · cases hresult
      · next path hpath =>
          exact ⟨_, _, .update hpath, rfl⟩
  | delete raw ifVersion key =>
      rw [carryOut] at hok ⊢
      rw [store_onStore]
      refine fitting_onStore hrecorded (fun result hresult => ?_) hok
      unfold Store.delete at hresult ⊢
      split at hresult
      · cases hresult
      · next path hpath =>
          exact ⟨_, _, .delete hpath, rfl⟩
  | query query =>
      exact fitting_query hindexed _ hok
  | explain query =>
      rw [carryOut] at hok ⊢
      split at hok
      · next plan hplan =>
          cases hok
          refine ⟨?_, .explain plan⟩
          intro doc hdoc
          cases hdoc
      · cases hok
  | commit transaction reads writes =>
      exact fitting_commit hrecorded hok

/--
In every reachable database a request that succeeds hands out documents of its
tenant only, and is answered as is fitting.
-/
theorem Reachable.responses_stay_within
    (h : Reachable db)
    (hok : (db.execute moment freshId requester operation).1 = .ok outcome) :
    (∀ doc ∈ outcome.handedOut, doc.tenant = requester.tenant) ∧
      Fitting db.store (db.execute moment freshId requester operation).2.store moment.instant
        freshId requester operation outcome := by
  have hanswered := db.answered_execute moment freshId requester operation
  generalize db.execute moment freshId requester operation = response at hanswered hok ⊢
  cases hanswered with
  | turnedDown hasked =>
      cases hok
  | carriedOut hgranted =>
      have hindexed := h.indexed
      have hrecorded := h.recorded
      rw [← hgranted.asked.store_eq] at hindexed hrecorded ⊢
      exact fitting_carryOut hindexed hrecorded hok

/-- A retried commit with another write is answered with the document of the first one. -/
theorem retry_stays_within :
    Reachable ordered ∧
    ∃ doc,
      (ordered.execute ⟨5, fun _ => ⟨9⟩⟩ "u" (.ofService "acme")
        (.commit (some "t1") [] [.delete firstOrder none, .delete firstOrder none])).1 =
        .ok (.committed ⟨"t1", [.written doc]⟩) ∧
      doc.tenant = "acme" ∧
      Fitting ordered.store
        (ordered.execute ⟨5, fun _ => ⟨9⟩⟩ "u" (.ofService "acme")
          (.commit (some "t1") [] [.delete firstOrder none, .delete firstOrder none])).2.store
        5 "u" (.ofService "acme")
        (.commit (some "t1") [] [.delete firstOrder none, .delete firstOrder none])
        (.committed ⟨"t1", [.written doc]⟩) := by
  have hreachable : Reachable ordered := reachable_fresh.step (.execute _ _ _ _)
  obtain ⟨doc, hok⟩ : ∃ doc,
      (ordered.execute ⟨5, fun _ => ⟨9⟩⟩ "u" (.ofService "acme")
        (.commit (some "t1") [] [.delete firstOrder none, .delete firstOrder none])).1 =
        .ok (.committed ⟨"t1", [.written doc]⟩) :=
    ⟨_, rfl⟩
  obtain ⟨htenant, hfitting⟩ := hreachable.responses_stay_within hok
  exact ⟨hreachable, doc, hok, htenant doc List.mem_cons_self, hfitting⟩

/-- A database in which a service of `acme` has created an order under a key. -/
def keyed : Database :=
  (fresh.execute ⟨0, fun _ => ⟨7⟩⟩ "u" (.ofService "acme")
    (.create "orders/1" (.ofNat 1) (some "k"))).2

/-- A database with room for two replies. -/
def tight : Database where
  settings := { store := { idempotencyCapacity := 2 } }
  store := Store.new 500 2 600000 "tenantId"
  guard := Guard.new RuleSet.empty {}

/--
A commit, a creation that is refused for a key derived by the commit, and a
creation whose reply displaces the receipt of the commit.
-/
def displacing : List Action :=
  let service := Requester.ofService "acme"
  [.execute ⟨0, fun _ => ⟨7⟩⟩ "u" service (.commit (some "t") [] [.create firstOrder (.ofNat 1)]),
   .execute ⟨1, fun _ => ⟨8⟩⟩ "u" service (.create "orders/3" (.ofNat 3) (some "t#0")),
   .execute ⟨2, fun _ => ⟨9⟩⟩ "u" service (.create "orders/3" (.ofNat 3) (some "k"))]

/--
A key answers with the document that it was first used for, at another path
than the one that is named; the id of a commit answers with as many results as
the commit had that it was first used for; and a key that is derived from the
id answers with its document even when the receipt has been displaced.
-/
theorem replies_name_other_paths :
    (Reachable keyed ∧ ∃ path doc, readPath "orders/2" = .ok path ∧
      (keyed.execute ⟨5, fun _ => ⟨9⟩⟩ "u" (.ofService "acme")
        (.create "orders/2" (.ofNat 2) (some "k"))).1 = .ok (.document doc) ∧
      doc.path ≠ path) ∧
    (Reachable ordered ∧ ∃ receipt,
      (ordered.execute ⟨5, fun _ => ⟨9⟩⟩ "u" (.ofService "acme")
        (.commit (some "t1") [] [])).1 = .ok (.committed receipt) ∧
      receipt.results.length = 1) ∧
    (Reachable (tight.run displacing) ∧
      (tight.run displacing).store.reply? "acme" "t" 5 = none ∧
      ∃ doc,
        ((tight.run displacing).execute ⟨5, fun _ => ⟨9⟩⟩ "u" (.ofService "acme")
          (.commit (some "t") [] [.create secondOrder (.ofNat 2)])).1 =
            .ok (.committed ⟨"t", [.written doc]⟩) ∧
        doc.path = firstOrder) := by
  have hopened : Database.new { store := { idempotencyCapacity := 2 } } RuleSet.empty =
      .ok tight := rfl
  refine ⟨⟨reachable_fresh.step (.execute _ _ _ _), _, _, rfl, rfl, by decide +kernel⟩,
    ⟨reachable_fresh.step (.execute _ _ _ _), _, rfl, rfl⟩,
    (Reachable.opened hopened).run displacing, by decide +kernel, _, rfl, rfl⟩

end Database
end DocumentStore
