import DocumentStore.Proofs.Gateway.Judged
import DocumentStore.Proofs.Store.Simulation

/-!
# Databases that judge a requester alike

Two databases may differ in much and still answer a requester alike: it is
enough that they find the same documents of the tenant and judge every access
alike, and that this stays so while accesses are judged.  Then requests are
turned down by both or go on in both, and it only remains to compare what is
carried out on the stores.
-/

namespace DocumentStore
namespace Database

/-- Related databases judge the accesses of a requester at an instant alike, and stay related. -/
structure JudgesAlike
    (requester : Requester)
    (instant : Nat)
    (B : Database → Database → Prop) :
    Prop where
  find? : ∀ {d e}, B d e → ∀ path,
    e.store.find? requester.tenant path = d.store.find? requester.tenant path
  authorize : ∀ {d e}, B d e → ∀ kind path resource payload,
    AgreeIn B (d.authorize instant requester kind path resource payload)
      (e.authorize instant requester kind path resource payload)

theorem agreeIn_onStore
    {α : Type}
    {R : Store → Store → Prop}
    {A : Database → Database → Prop}
    {d e : Database}
    {a b : Except StoreError α × Store}
    (h : AgreeIn R a b)
    (hrelated : ∀ s t, R s t → A { d with store := s } { e with store := t })
    (outcome : α → Outcome) :
    AgreeIn A (d.onStore outcome a) (e.onStore outcome b) := by
  obtain ⟨result, s, t, rfl, rfl, hst⟩ := h
  cases result <;> exact ⟨_, _, _, rfl, rfl, hrelated s t hst⟩

namespace JudgesAlike

variable
  {requester : Requester}
  {instant : Nat}
  {A B : Database → Database → Prop}
  {d e : Database}
  (hjudges : JudgesAlike requester instant B)

include hjudges

/-- An access that was judged goes on in both, or is turned down by both. -/
theorem accessing
    (hdone : ∀ d e, B d e → A d e)
    (h : B d e)
    (kind : AccessKind)
    (raw : String)
    (payload : Option Json)
    {next next' : Database → DocumentPath → Option Document → Response}
    (hnext : ∀ {d' e' : Database} (path : DocumentPath) (current : Option Document),
      B d' e' → AgreeIn A (next d' path current) (next' e' path current)) :
    AgreeIn A (d.accessing instant requester kind raw payload next)
      (e.accessing instant requester kind raw payload next') := by
  unfold Database.accessing
  cases readPath raw with
  | error fault =>
      exact ⟨_, d, e, rfl, rfl, hdone d e h⟩
  | ok path =>
      simp only [hjudges.find? h]
      obtain ⟨verdict, d', e', hd, he, h'⟩ := hjudges.authorize h kind raw
        (d.store.find? requester.tenant path) payload
      simp only [hd, he]
      cases verdict with
      | some refusal =>
          exact ⟨_, d', e', rfl, rfl, hdone d' e' h'⟩
      | none =>
          exact hnext path _ h'

/-- A single write that is judged. -/
theorem writing
    {moment : Moment}
    (hinstant : moment.instant = instant)
    (hdone : ∀ d e, B d e → A d e)
    (h : B d e)
    (kind : AccessKind)
    (raw : String)
    (payload : Option Json)
    (key : Option String)
    (writeTo : DocumentPath → Write)
    (hwrite : ∀ {d' e' : Database} (write : Write), B d' e' →
      AgreeIn A
        (d'.onStore outcomeOf
          (d'.store.write moment requester.tenant requester.actor write key))
        (e'.onStore outcomeOf
          (e'.store.write moment requester.tenant requester.actor write key))) :
    AgreeIn A (d.writing moment requester kind raw payload key writeTo)
      (e.writing moment requester kind raw payload key writeTo) := by
  subst hinstant
  exact hjudges.accessing hdone h kind raw payload fun path _ h' => hwrite (writeTo path) h'

/-- A query that is judged, if it has the same answer in both. -/
theorem listing
    (hdone : ∀ d e, B d e → A d e)
    (h : B d e)
    (query : Query)
    {next next' : QuerySpec → Except IndexError Outcome}
    (hnext : next' { query with tenant := requester.tenant } =
      next { query with tenant := requester.tenant }) :
    AgreeIn A (d.listing instant requester query next)
      (e.listing instant requester query next') := by
  unfold Database.listing
  obtain ⟨verdict, d', e', hd, he, h'⟩ := hjudges.authorize h .list
    (listPath requester.tenant query.collection) none none
  simp only [hd, he, hnext]
  cases verdict with
  | some refusal =>
      exact ⟨_, d', e', rfl, rfl, hdone d' e' h'⟩
  | none =>
      cases next { query with tenant := requester.tenant } <;>
        exact ⟨_, d', e', rfl, rfl, hdone d' e' h'⟩

/-- The reads of a commit. -/
theorem declareReads
    (h : B d e)
    (reads : List ReadVersion)
    (tx : Transaction) :
    AgreeIn B (Database.declareReads instant requester reads tx d)
      (Database.declareReads instant requester reads tx e) := by
  induction reads generalizing tx d e with
  | nil =>
      exact ⟨_, d, e, rfl, rfl, h⟩
  | cons read rest ih =>
      unfold Database.declareReads
      simp only [hjudges.find? h]
      obtain ⟨verdict, d', e', hd, he, h'⟩ := hjudges.authorize h .get read.path.text
        (d.store.find? requester.tenant read.path) none
      simp only [hd, he]
      cases verdict with
      | some refusal =>
          exact ⟨_, d', e', rfl, rfl, h'⟩
      | none =>
          exact ih h' _

/-- The writes of a commit. -/
theorem gatherWrites
    (h : B d e)
    (writes : List Write)
    (tx : Transaction) :
    AgreeIn B (Database.gatherWrites instant requester writes tx d)
      (Database.gatherWrites instant requester writes tx e) := by
  induction writes generalizing tx d e with
  | nil =>
      exact ⟨_, d, e, rfl, rfl, h⟩
  | cons write rest ih =>
      unfold Database.gatherWrites
      simp only [hjudges.find? h]
      obtain ⟨verdict, d', e', hd, he, h'⟩ := hjudges.authorize h (accessOf write)
        write.path.text (d.store.find? requester.tenant write.path) write.payload?
      simp only [hd, he]
      cases verdict with
      | some refusal =>
          exact ⟨_, d', e', rfl, rfl, h'⟩
      | none =>
          cases tx.add write with
          | error fault =>
              exact ⟨_, d', e', rfl, rfl, h'⟩
          | ok tx =>
              exact ih h' tx

/-- A commit that is judged, of the writes that were asked for. -/
theorem commit
    {moment : Moment}
    (hinstant : moment.instant = instant)
    (hdone : ∀ d e, B d e → A d e)
    (h : B d e)
    (hlimit : e.store.transactionLimit = d.store.transactionLimit)
    (id : String)
    (reads : List ReadVersion)
    (writes : List Write)
    (hcommit : ∀ {d' e' : Database} {tx : Transaction}, B d' e' →
      tx.tenant = requester.tenant → tx.writes = writes →
      AgreeIn A
        (d'.onStore .committed (d'.store.commit moment tx requester.actor))
        (e'.onStore .committed (e'.store.commit moment tx requester.actor))) :
    AgreeIn A (d.commit moment requester id reads writes)
      (e.commit moment requester id reads writes) := by
  subst hinstant
  unfold Database.commit
  simp only [hlimit]
  obtain ⟨declared, d', e', hd, he, h'⟩ := hjudges.declareReads h reads
    (Transaction.begin requester.tenant id d.store.transactionLimit)
  simp only [hd, he]
  cases declared with
  | error refusal =>
      exact ⟨_, d', e', rfl, rfl, hdone d' e' h'⟩
  | ok tx =>
      obtain ⟨gathered, d'', e'', hd', he', h''⟩ := hjudges.gatherWrites h' writes tx
      simp only [hd', he']
      cases gathered with
      | error refusal =>
          exact ⟨_, d'', e'', rfl, rfl, hdone d'' e'' h''⟩
      | ok tx' =>
          have hnoted := (granted_of_declareReads hd).2
          have hgathered := (granted_of_gatherWrites hd').2
          obtain ⟨noted, hreads⟩ := (Transaction.begin requester.tenant id
            d.store.transactionLimit).noteReads_eq reads
          refine hcommit h'' ?_ ?_ <;> rw [hgathered, hnoted, hreads] <;> rfl

end JudgesAlike

end Database
end DocumentStore
