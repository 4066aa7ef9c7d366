import DocumentStore.Proofs.Gateway.Reachable
import DocumentStore.Proofs.Store.Calls

/-!
# Requests are judged and then carried out

An operation needs some accesses.  They are judged one after the other, which
changes nothing but the guard; the first that is not granted turns the request
down.  When all are granted, the operation is carried out on the store as if
there were no rules.
-/

namespace DocumentStore

/-- An access to a path, with the document that stands there and the payload that is brought. -/
structure Access where
  kind : AccessKind
  path : String
  resource : Option Document
  payload : Option Json

namespace Access

/-- The access of a single operation to a path named in the request. -/
def named
    (store : Store)
    (tenant : String)
    (kind : AccessKind)
    (raw : String)
    (payload : Option Json) :
    Access where
  kind
  path := raw
  resource :=
    match readPath raw with
    | .ok path => store.find? tenant path
    | .error _ => none
  payload

/-- The access that a declared read of a commit needs. -/
def ofRead
    (store : Store)
    (tenant : String)
    (read : ReadVersion) :
    Access :=
  ⟨.get, read.path.text, store.find? tenant read.path, none⟩

/-- The access that a write of a commit needs. -/
def ofWrite
    (store : Store)
    (tenant : String)
    (write : Write) :
    Access :=
  ⟨Database.accessOf write, write.path.text, store.find? tenant write.path, write.payload?⟩

end Access

/-- The accesses that an operation needs, in the order in which they are judged. -/
def Operation.accesses
    (store : Store)
    (tenant : String) :
    Operation → List Access
  | .get raw => [.named store tenant .get raw none]
  | .create raw data _ => [.named store tenant .create raw (some data)]
  | .update raw data _ _ _ => [.named store tenant .update raw (some data)]
  | .delete raw _ _ => [.named store tenant .delete raw none]
  | .query q => [⟨.list, listPath tenant q.collection, none, none⟩]
  | .explain q => [⟨.list, listPath tenant q.collection, none, none⟩]
  | .commit _ reads writes =>
      reads.map (.ofRead store tenant) ++ writes.map (.ofWrite store tenant)

/-- An operation can be carried out at all: its path can be read, and it has not too many writes. -/
def Operation.Fits (limit : Nat) : Operation → Prop
  | .get raw => ∃ path, readPath raw = .ok path
  | .create raw _ _ => ∃ path, readPath raw = .ok path
  | .update raw _ _ _ _ => ∃ path, readPath raw = .ok path
  | .delete raw _ _ => ∃ path, readPath raw = .ok path
  | .query _ => True
  | .explain _ => True
  | .commit _ _ writes => writes.length ≤ limit

namespace Transaction

/-- Note declared reads, one after the other. -/
def noteReads
    (tx : Transaction)
    (reads : List ReadVersion) :
    Transaction :=
  reads.foldl (fun tx read => tx.noteRead read.path read.version.toNat) tx

/-- The transaction that a commit makes of its reads and writes. -/
def declared
    (tenant id : String)
    (limit : Nat)
    (reads : List ReadVersion)
    (writes : List Write) :
    Transaction :=
  { (Transaction.begin tenant id limit).noteReads reads with writes }

theorem noteRead_eq
    (tx : Transaction)
    (path : DocumentPath)
    (version : Nat) :
    ∃ reads, tx.noteRead path version = { tx with reads } := by
  unfold noteRead
  split
  · exact ⟨tx.reads, rfl⟩
  · exact ⟨_, rfl⟩

theorem noteReads_eq
    (tx : Transaction)
    (declared : List ReadVersion) :
    ∃ reads, tx.noteReads declared = { tx with reads } := by
  induction declared generalizing tx with
  | nil =>
      exact ⟨tx.reads, rfl⟩
  | cons read rest ih =>
      obtain ⟨reads, hread⟩ := tx.noteRead_eq read.path read.version.toNat
      obtain ⟨reads', hrest⟩ := ih (tx.noteRead read.path read.version.toNat)
      refine ⟨reads', ?_⟩
      change (tx.noteRead read.path read.version.toNat).noteReads rest = _
      rw [hrest, hread]

theorem writes_noteReads
    (tx : Transaction)
    (reads : List ReadVersion) :
    (tx.noteReads reads).writes = tx.writes := by
  obtain ⟨noted, h⟩ := tx.noteReads_eq reads
  rw [h]

@[simp] theorem tenant_declared
    (tenant id : String)
    (limit : Nat)
    (reads : List ReadVersion)
    (writes : List Write) :
    (declared tenant id limit reads writes).tenant = tenant := by
  obtain ⟨noted, h⟩ := (Transaction.begin tenant id limit).noteReads_eq reads
  unfold declared
  rw [h]
  rfl

@[simp] theorem id_declared
    (tenant id : String)
    (limit : Nat)
    (reads : List ReadVersion)
    (writes : List Write) :
    (declared tenant id limit reads writes).id = id := by
  obtain ⟨noted, h⟩ := (Transaction.begin tenant id limit).noteReads_eq reads
  unfold declared
  rw [h]
  rfl

@[simp] theorem writes_declared
    (tenant id : String)
    (limit : Nat)
    (reads : List ReadVersion)
    (writes : List Write) :
    (declared tenant id limit reads writes).writes = writes :=
  rfl

/-- A transaction has room for another write, or is too large with it. -/
theorem add_cases
    (tx : Transaction)
    (write : Write) :
    (tx.writes.length < tx.limit ∧
        tx.add write = .ok { tx with writes := tx.writes ++ [write] }) ∨
      tx.limit ≤ tx.writes.length ∧ ∃ e, tx.add write = .error e := by
  unfold add
  split
  · next hfull =>
      exact .inr ⟨hfull, _, rfl⟩
  · next hroom =>
      exact .inl ⟨by omega, rfl⟩

end Transaction

namespace Database

open Relation (ReflTransGen)

/-- One access was judged for a requester, whatever the verdict. -/
def AskedOnce
    (requester : Requester)
    (db db' : Database) :
    Prop :=
  ∃ (instant : Nat) (access : Access),
    db' = (db.authorize instant requester access.kind access.path access.resource
      access.payload).2

/-- Any number of accesses were judged for a requester. -/
abbrev Asked (requester : Requester) : Database → Database → Prop :=
  ReflTransGen (AskedOnce requester)

/-- What each judgement keeps, any number of them keeps. -/
theorem Asked.preserves
    {requester : Requester}
    {motive : Database → Prop}
    (hstep : ∀ (db : Database) (instant : Nat) (access : Access), motive db →
      motive (db.authorize instant requester access.kind access.path access.resource
        access.payload).2)
    {db db' : Database}
    (h : Asked requester db db')
    (hdb : motive db) :
    motive db' := by
  induction h with
  | refl =>
      exact hdb
  | tail _ hlast ih =>
      obtain ⟨instant, access, heq⟩ := hlast
      rw [heq]
      exact hstep _ instant access ih

theorem Asked.store_eq
    {requester : Requester}
    {db db' : Database}
    (h : Asked requester db db') :
    db'.store = db.store := by
  refine h.preserves (motive := fun d => d.store = db.store) ?_ rfl
  intro d instant access hd
  rw [store_authorize, hd]

/-- Accesses are judged one after the other, and all are granted. -/
inductive Granted
    (instant : Nat)
    (requester : Requester) :
    List Access → Database → Database → Prop
  | nil
      (db : Database) :
      Granted instant requester [] db db
  | cons
      {access : Access}
      {rest : List Access}
      {db db' db'' : Database}
      (h : db.authorize instant requester access.kind access.path access.resource
        access.payload = (none, db'))
      (hrest : Granted instant requester rest db' db'') :
      Granted instant requester (access :: rest) db db''

namespace Granted

variable {instant : Nat} {requester : Requester}

theorem append
    {first rest : List Access}
    {db db' db'' : Database}
    (h : Granted instant requester first db db')
    (hrest : Granted instant requester rest db' db'') :
    Granted instant requester (first ++ rest) db db'' := by
  induction h with
  | nil =>
      exact hrest
  | cons hfirst _ ih =>
      exact .cons hfirst (ih hrest)

theorem asked
    {accesses : List Access}
    {db db' : Database}
    (h : Granted instant requester accesses db db') :
    Asked requester db db' := by
  induction h with
  | nil =>
      exact .refl
  | cons hfirst _ ih =>
      exact .head ⟨instant, _, (congrArg Prod.snd hfirst).symm⟩ ih

theorem exists_of_mem
    {accesses : List Access}
    {db db' : Database}
    (h : Granted instant requester accesses db db')
    {access : Access}
    (hmem : access ∈ accesses) :
    ∃ between, Asked requester db between ∧
      (between.authorize instant requester access.kind access.path access.resource
        access.payload).1 = none := by
  induction h with
  | nil =>
      cases hmem
  | @cons first rest db db' db'' hfirst _ ih =>
      rcases List.mem_cons.1 hmem with rfl | hrest
      · exact ⟨db, .refl, congrArg Prod.fst hfirst⟩
      · obtain ⟨between, hasked, hnone⟩ := ih hrest
        exact ⟨between, .head ⟨instant, first, (congrArg Prod.snd hfirst).symm⟩ hasked, hnone⟩

end Granted

/-- One of some accesses is denied, after others were judged. -/
inductive Denied
    (instant : Nat)
    (requester : Requester)
    (accesses : List Access)
    (db : Database) :
    RequestError → Database → Prop
  | intro
      {access : Access}
      {judged db' : Database}
      {e : RequestError}
      (hmem : access ∈ accesses)
      (hasked : Asked requester db judged)
      (h : judged.authorize instant requester access.kind access.path access.resource
        access.payload = (some e, db')) :
      Denied instant requester accesses db e db'

namespace Denied

variable {instant : Nat} {requester : Requester} {accesses : List Access} {db db' : Database}
  {e : RequestError}

theorem asked
    (h : Denied instant requester accesses db e db') :
    Asked requester db db' := by
  cases h with
  | intro hmem hasked h =>
      exact hasked.tail ⟨instant, _, (congrArg Prod.snd h).symm⟩

theorem of_asked
    {before : Database}
    (hasked : Asked requester before db)
    (h : Denied instant requester accesses db e db') :
    Denied instant requester accesses before e db' := by
  cases h with
  | intro hmem hlater h =>
      exact .intro hmem (hasked.trans hlater) h

theorem mono
    {more : List Access}
    (h : Denied instant requester accesses db e db')
    (hsubset : ∀ access ∈ accesses, access ∈ more) :
    Denied instant requester more db e db' := by
  cases h with
  | intro hmem hasked h =>
      exact .intro (hsubset _ hmem) hasked h

end Denied

/-- Carry out an operation without asking the rules. -/
def carryOut
    (db : Database)
    (moment : Moment)
    (freshId : String)
    (requester : Requester) :
    Operation → Response
  | .get raw =>
      match readPath raw with
      | .error e => (.error (.store e), db)
      | .ok path =>
          match db.store.find? requester.tenant path with
          | some doc => (.ok (.document doc), db)
          | none => (.error (.store (.notFound requester.tenant raw)), db)
  | .create raw data key =>
      db.onStore outcomeOf
        (db.store.create moment requester.tenant requester.actor raw data key)
  | .update raw data ifVersion merge key =>
      db.onStore outcomeOf
        (db.store.update moment requester.tenant requester.actor raw data ifVersion merge key)
  | .delete raw ifVersion key =>
      db.onStore outcomeOf
        (db.store.delete moment requester.tenant requester.actor raw ifVersion key)
  | .query query =>
      match db.store.query { query with tenant := requester.tenant } with
      | .ok docs => (.ok (.documents docs), db)
      | .error e => (.error (.index e), db)
  | .explain query =>
      match db.store.plan { query with tenant := requester.tenant } with
      | .ok plan => (.ok (.plan plan), db)
      | .error e => (.error (.index e), db)
  | .commit transaction reads writes =>
      db.onStore .committed
        (db.store.commit moment
          (Transaction.declared requester.tenant (transaction.getD freshId)
            db.store.transactionLimit reads writes)
          requester.actor)

/-- The call that an operation makes when it is carried out, unless it only reads. -/
def callOf?
    (requester : Requester)
    (freshId : String)
    (limit : Nat) :
    Operation → Option Store.Call
  | .create raw data key => some (.create requester.tenant requester.actor raw data key)
  | .update raw data ifVersion merge key =>
      some (.update requester.tenant requester.actor raw data ifVersion merge key)
  | .delete raw ifVersion key => some (.delete requester.tenant requester.actor raw ifVersion key)
  | .commit transaction reads writes =>
      some (.commit
        (Transaction.declared requester.tenant (transaction.getD freshId) limit reads writes)
        requester.actor)
  | _ => none

/-- The two ways in which an operation is carried out, given the call that it makes. -/
inductive Carried
    (db : Database)
    (moment : Moment) :
    Option Store.Call → Response → Prop
  /-- The operation only reads. -/
  | reads (answer : Except RequestError Outcome) :
      Carried db moment none (answer, db)
  /-- The operation is answered with what the call returns. -/
  | calls
      {α : Type}
      {outcome : α → Outcome}
      {answer : α → Store.Answer}
      {served : Except StoreError α × Store}
      {call : Store.Call}
      (hserve : db.store.serve moment call = Store.answering answer served) :
      Carried db moment (some call) (db.onStore outcome served)

/-- An operation is carried out by reading, or by the call that it makes. -/
theorem carried_carryOut
    (db : Database)
    (moment : Moment)
    (freshId : String)
    (requester : Requester)
    (operation : Operation) :
    Carried db moment (callOf? requester freshId db.store.transactionLimit operation)
      (db.carryOut moment freshId requester operation) := by
  cases operation with
  | get raw =>
      rw [carryOut]
      split
      · exact .reads _
      · split <;> exact .reads _
  | create raw data key =>
      rw [carryOut]
      exact .calls (Store.serve.eq_def ..)
  | update raw data ifVersion merge key =>
      rw [carryOut]
      exact .calls (Store.serve.eq_def ..)
  | delete raw ifVersion key =>
      rw [carryOut]
      exact .calls (Store.serve.eq_def ..)
  | query query =>
      rw [carryOut]
      split <;> exact .reads _
  | explain query =>
      rw [carryOut]
      split <;> exact .reads _
  | commit transaction reads writes =>
      rw [carryOut]
      exact .calls (Store.serve.eq_def ..)

/-- The two ways in which a request is answered. -/
inductive Answered
    (db : Database)
    (moment : Moment)
    (freshId : String)
    (requester : Requester)
    (operation : Operation) :
    Response → Prop
  /-- The request is turned down after some accesses were judged. -/
  | turnedDown
      {e : RequestError}
      {db' : Database}
      (hasked : Asked requester db db') :
      Answered db moment freshId requester operation (.error e, db')
  /-- All accesses are granted, and the operation is carried out. -/
  | carriedOut
      {db' : Database}
      (hgranted : Granted moment.instant requester
        (operation.accesses db.store requester.tenant) db db') :
      Answered db moment freshId requester operation
        (db'.carryOut moment freshId requester operation)

/-- Why a request is turned down. -/
inductive Declined
    (db : Database)
    (instant : Nat)
    (requester : Requester)
    (operation : Operation) :
    RequestError → Database → Prop
  /-- The operation cannot be carried out. -/
  | unfit
      {e : StoreError}
      {db' : Database}
      (hunfit : ¬ operation.Fits db.store.transactionLimit)
      (hasked : Asked requester db db') :
      Declined db instant requester operation (.store e) db'
  /-- One of its accesses is denied. -/
  | denied
      {e : RequestError}
      {db' : Database}
      (hdenied : Denied instant requester (operation.accesses db.store requester.tenant) db e db') :
      Declined db instant requester operation e db'

/-- The two ways in which a request is answered, with the reason for turning it down. -/
inductive Ruled
    (db : Database)
    (moment : Moment)
    (freshId : String)
    (requester : Requester)
    (operation : Operation) :
    Response → Prop
  | declined
      {e : RequestError}
      {db' : Database}
      (h : Declined db moment.instant requester operation e db') :
      Ruled db moment freshId requester operation (.error e, db')
  /-- The operation can be carried out, and all accesses are granted. -/
  | carriedOut
      {db' : Database}
      (hfits : operation.Fits db.store.transactionLimit)
      (hgranted : Granted moment.instant requester
        (operation.accesses db.store requester.tenant) db db') :
      Ruled db moment freshId requester operation
        (db'.carryOut moment freshId requester operation)

/-- Whatever the reason, accesses were judged. -/
theorem Ruled.answered
    {db : Database}
    {moment : Moment}
    {freshId : String}
    {requester : Requester}
    {operation : Operation}
    {response : Response}
    (h : Ruled db moment freshId requester operation response) :
    Answered db moment freshId requester operation response := by
  cases h with
  | declined hdeclined =>
      cases hdeclined with
      | unfit hunfit hasked =>
          exact .turnedDown hasked
      | denied hdenied =>
          exact .turnedDown hdenied.asked
  | carriedOut hfits hgranted =>
      exact .carriedOut hgranted

/--
An operation on one document is ruled on when it judges its access first, and
then, in a database with the same documents, goes on to what it carries out.
-/
theorem ruled_accessing
    (db : Database)
    (moment : Moment)
    (freshId : String)
    (requester : Requester)
    {operation : Operation}
    {kind : AccessKind}
    {raw : String}
    {payload : Option Json}
    {next : Database → DocumentPath → Option Document → Response}
    (hfits : operation.Fits db.store.transactionLimit ↔ ∃ path, readPath raw = .ok path)
    (haccesses : operation.accesses db.store requester.tenant =
      [.named db.store requester.tenant kind raw payload])
    (hnext : ∀ path (db' : Database), readPath raw = .ok path → db'.store = db.store →
      next db' path (db.store.find? requester.tenant path) =
        db'.carryOut moment freshId requester operation) :
    Ruled db moment freshId requester operation
      (db.accessing moment.instant requester kind raw payload next) := by
  unfold accessing
  split
  · next e herror =>
      refine .declined (.unfit ?_ .refl)
      intro hcan
      obtain ⟨path, hpath⟩ := hfits.1 hcan
      rw [herror] at hpath
      cases hpath
  · next path hpath =>
      dsimp only
      have hresource :
          (Access.named db.store requester.tenant kind raw payload).resource =
            db.store.find? requester.tenant path := by
        simp only [Access.named, hpath]
      rw [← hresource]
      split
      · next e db' hauthorize =>
          refine .declined (.denied ?_)
          rw [haccesses]
          exact .intro List.mem_cons_self .refl hauthorize
      · next db' hauthorize =>
          have hgranted : Granted moment.instant requester
              [.named db.store requester.tenant kind raw payload] db db' :=
            .cons hauthorize (.nil db')
          rw [hresource, hnext path db' hpath hgranted.asked.store_eq]
          rw [← haccesses] at hgranted
          exact .carriedOut (hfits.2 ⟨path, hpath⟩) hgranted

/-- A query is ruled on when it goes on to what it carries out, once listing is granted. -/
theorem ruled_listing
    (db : Database)
    (moment : Moment)
    (freshId : String)
    (requester : Requester)
    {operation : Operation}
    {query : Query}
    {next : QuerySpec → Except IndexError Outcome}
    (hfits : operation.Fits db.store.transactionLimit)
    (haccesses : operation.accesses db.store requester.tenant =
      [⟨.list, listPath requester.tenant query.collection, none, none⟩])
    (hnext : ∀ db' : Database, db'.store = db.store →
      (match next { query with tenant := requester.tenant } with
        | .ok outcome => (.ok outcome, db')
        | .error e => (.error (.index e), db')) =
        db'.carryOut moment freshId requester operation) :
    Ruled db moment freshId requester operation
      (db.listing moment.instant requester query next) := by
  unfold listing
  dsimp only
  split
  · next e db' hauthorize =>
      refine .declined (.denied ?_)
      rw [haccesses]
      exact .intro List.mem_cons_self .refl hauthorize
  · next db' hauthorize =>
      have hgranted : Granted moment.instant requester
          [⟨.list, listPath requester.tenant query.collection, none, none⟩] db db' :=
        .cons hauthorize (.nil db')
      have hsame := hnext db' hgranted.asked.store_eq
      rw [← haccesses] at hgranted
      have hcarried := @Ruled.carriedOut db moment freshId requester operation db' hfits hgranted
      rw [← hsame] at hcarried
      exact hcarried

/-- If the reads of a commit may not go on, one of them was denied. -/
theorem denied_of_declareReads
    {instant : Nat}
    {requester : Requester}
    {reads : List ReadVersion}
    {tx : Transaction}
    {db db' : Database}
    {e : RequestError}
    (h : declareReads instant requester reads tx db = (.error e, db')) :
    Denied instant requester (reads.map (.ofRead db.store requester.tenant)) db e db' := by
  induction reads generalizing tx db with
  | nil =>
      cases h
  | cons read rest ih =>
      have hstore := db.store_authorize instant requester .get read.path.text
        (db.store.find? requester.tenant read.path) none
      have hasked : AskedOnce requester db
          (db.authorize instant requester .get read.path.text
            (db.store.find? requester.tenant read.path) none).2 :=
        ⟨instant, .ofRead db.store requester.tenant read, rfl⟩
      unfold declareReads at h
      dsimp only at h
      split at h <;> rename_i between hauthorize <;> rw [hauthorize] at hstore hasked
      · cases h
        have hmem : Access.ofRead db.store requester.tenant read ∈
            (read :: rest).map (.ofRead db.store requester.tenant) := List.mem_cons_self
        exact .intro hmem .refl hauthorize
      · have hrest := ih h
        dsimp only at hstore
        rw [hstore] at hrest
        exact (hrest.of_asked (.single hasked)).mono fun access => List.mem_cons_of_mem _

/-- If the reads of a commit may go on, they were granted and noted. -/
theorem granted_of_declareReads
    {instant : Nat}
    {requester : Requester}
    {reads : List ReadVersion}
    {tx tx' : Transaction}
    {db db' : Database}
    (h : declareReads instant requester reads tx db = (.ok tx', db')) :
    Granted instant requester (reads.map (.ofRead db.store requester.tenant)) db db' ∧
      tx' = tx.noteReads reads := by
  induction reads generalizing tx db with
  | nil =>
      cases h
      exact ⟨.nil _, rfl⟩
  | cons read rest ih =>
      have hstore := db.store_authorize instant requester .get read.path.text
        (db.store.find? requester.tenant read.path) none
      unfold declareReads at h
      dsimp only at h
      split at h <;> rename_i between hauthorize <;> rw [hauthorize] at hstore
      · cases h
      · obtain ⟨hgranted, rfl⟩ := ih h
        dsimp only at hstore
        rw [hstore] at hgranted
        exact ⟨.cons hauthorize hgranted, rfl⟩

/-- If the writes of a commit may not go on, one of them was denied, or there are too many. -/
theorem declined_of_gatherWrites
    {instant : Nat}
    {requester : Requester}
    {writes : List Write}
    {tx : Transaction}
    {db db' : Database}
    {e : RequestError}
    (h : gatherWrites instant requester writes tx db = (.error e, db')) :
    Denied instant requester (writes.map (.ofWrite db.store requester.tenant)) db e db' ∨
      (∃ fault, e = .store fault) ∧ tx.limit < tx.writes.length + writes.length ∧
        Asked requester db db' := by
  induction writes generalizing tx db with
  | nil =>
      cases h
  | cons write rest ih =>
      have hstore := db.store_authorize instant requester (accessOf write) write.path.text
        (db.store.find? requester.tenant write.path) write.payload?
      have hasked : AskedOnce requester db
          (db.authorize instant requester (accessOf write) write.path.text
            (db.store.find? requester.tenant write.path) write.payload?).2 :=
        ⟨instant, .ofWrite db.store requester.tenant write, rfl⟩
      unfold gatherWrites at h
      dsimp only at h
      split at h <;> rename_i between hauthorize <;> rw [hauthorize] at hstore hasked
      · cases h
        have hmem : Access.ofWrite db.store requester.tenant write ∈
            (write :: rest).map (.ofWrite db.store requester.tenant) := List.mem_cons_self
        exact .inl (.intro hmem .refl hauthorize)
      · dsimp only at hstore
        rcases tx.add_cases write with ⟨hroom, hadd⟩ | ⟨hfull, fault, hadd⟩ <;> rw [hadd] at h
        · rcases ih h with hdenied | ⟨hfault, hlarge, hlater⟩
          · rw [hstore] at hdenied
            exact .inl ((hdenied.of_asked (.single hasked)).mono fun access =>
              List.mem_cons_of_mem _)
          · refine .inr ⟨hfault, ?_, .head hasked hlater⟩
            simp only [List.length_append, List.length_cons, List.length_nil] at hlarge ⊢
            omega
        · cases h
          refine .inr ⟨⟨fault, rfl⟩, ?_, .single hasked⟩
          rw [List.length_cons]
          omega

/-- If the writes of a commit may go on, they were granted and gathered. -/
theorem granted_of_gatherWrites
    {instant : Nat}
    {requester : Requester}
    {writes : List Write}
    {tx tx' : Transaction}
    {db db' : Database}
    (h : gatherWrites instant requester writes tx db = (.ok tx', db')) :
    Granted instant requester (writes.map (.ofWrite db.store requester.tenant)) db db' ∧
      tx' = { tx with writes := tx.writes ++ writes } := by
  induction writes generalizing tx db with
  | nil =>
      cases h
      exact ⟨.nil _, by rw [List.append_nil]⟩
  | cons write rest ih =>
      have hstore := db.store_authorize instant requester (accessOf write) write.path.text
        (db.store.find? requester.tenant write.path) write.payload?
      unfold gatherWrites at h
      dsimp only at h
      split at h <;> rename_i between hauthorize <;> rw [hauthorize] at hstore
      · cases h
      · rcases tx.add_cases write with ⟨hroom, hadd⟩ | ⟨hfull, fault, hadd⟩ <;> rw [hadd] at h
        · obtain ⟨hgranted, rfl⟩ := ih h
          dsimp only at hstore
          rw [hstore] at hgranted
          refine ⟨.cons hauthorize hgranted, ?_⟩
          simp
        · cases h

/-- If the writes of a commit may go on, there are not too many. -/
theorem length_le_of_gatherWrites
    {instant : Nat}
    {requester : Requester}
    {writes : List Write}
    {tx tx' : Transaction}
    {db db' : Database}
    (h : gatherWrites instant requester writes tx db = (.ok tx', db'))
    (hroom : tx.writes.length ≤ tx.limit) :
    tx.writes.length + writes.length ≤ tx.limit := by
  induction writes generalizing tx db with
  | nil =>
      exact hroom
  | cons write rest ih =>
      unfold gatherWrites at h
      dsimp only at h
      split at h
      · cases h
      · rcases tx.add_cases write with ⟨hroom, hadd⟩ | ⟨hfull, fault, hadd⟩ <;> rw [hadd] at h
        · have hrest := ih h (by rw [List.length_append]; exact hroom)
          simp only [List.length_append, List.length_cons, List.length_nil] at hrest ⊢
          omega
        · cases h

/-- A commit is turned down, or all its accesses are granted and it is carried out. -/
theorem ruled_commit
    (db : Database)
    (moment : Moment)
    (freshId : String)
    (requester : Requester)
    (transaction : Option String)
    (reads : List ReadVersion)
    (writes : List Write) :
    Ruled db moment freshId requester (.commit transaction reads writes)
      (db.commit moment requester (transaction.getD freshId) reads writes) := by
  unfold commit
  dsimp only
  split
  · next e db' hdeclare =>
      exact .declined (.denied ((denied_of_declareReads hdeclare).mono fun access =>
        List.mem_append_left _))
  · next tx db' hdeclare =>
      obtain ⟨hreads, hnoted⟩ := granted_of_declareReads hdeclare
      have hstore : db'.store = db.store := hreads.asked.store_eq
      obtain ⟨noted, hbegin⟩ := (Transaction.begin requester.tenant (transaction.getD freshId)
        db.store.transactionLimit).noteReads_eq reads
      have hlimit : tx.limit = db.store.transactionLimit := by
        rw [hnoted, hbegin]
        rfl
      have hempty : tx.writes = [] := by
        rw [hnoted, hbegin]
        rfl
      split
      · next e db'' hgather =>
          rcases declined_of_gatherWrites hgather with hdenied | ⟨⟨fault, rfl⟩, hlarge, hasked⟩
          · rw [hstore] at hdenied
            exact .declined (.denied ((hdenied.of_asked hreads.asked).mono fun access =>
              List.mem_append_right _))
          · refine .declined (.unfit ?_ (hreads.asked.trans hasked))
            intro hfits
            rw [hlimit, hempty, List.length_nil, Nat.zero_add] at hlarge
            exact Nat.not_le_of_lt hlarge hfits
      · next gathered db'' hgather =>
          obtain ⟨hwrites, hgathered⟩ := granted_of_gatherWrites hgather
          have hfits := length_le_of_gatherWrites hgather (by rw [hempty]; exact Nat.zero_le _)
          have hstore' : db''.store = db'.store := hwrites.asked.store_eq
          rw [hstore] at hwrites
          rw [hlimit, hempty, List.length_nil, Nat.zero_add] at hfits
          have hdeclared : gathered = Transaction.declared requester.tenant
              (transaction.getD freshId) db''.store.transactionLimit reads writes := by
            rw [hgathered, hnoted, Transaction.writes_noteReads, hstore', hstore]
            rfl
          rw [hdeclared]
          exact .carriedOut hfits (hreads.append hwrites)

/-- Every request is turned down, or all its accesses are granted and it is carried out. -/
theorem ruled_execute
    (db : Database)
    (moment : Moment)
    (freshId : String)
    (requester : Requester)
    (operation : Operation) :
    Ruled db moment freshId requester operation
      (db.execute moment freshId requester operation) := by
  cases operation with
  | get raw =>
      rw [execute]
      refine db.ruled_accessing moment freshId requester Iff.rfl rfl fun path db' hpath hstore => ?_
      cases hfind : db.store.find? requester.tenant path <;>
        simp only [carryOut, hpath, hstore, hfind]
  | create raw data key =>
      rw [execute, writing]
      refine db.ruled_accessing moment freshId requester Iff.rfl rfl fun path db' hpath _ => ?_
      rw [carryOut, Store.create, hpath]
  | update raw data ifVersion merge key =>
      rw [execute, writing]
      refine db.ruled_accessing moment freshId requester Iff.rfl rfl fun path db' hpath _ => ?_
      rw [carryOut, Store.update, hpath]
  | delete raw ifVersion key =>
      rw [execute, writing]
      refine db.ruled_accessing moment freshId requester Iff.rfl rfl fun path db' hpath _ => ?_
      rw [carryOut, Store.delete, hpath]
  | query query =>
      rw [execute]
      refine db.ruled_listing moment freshId requester trivial rfl fun db' hstore => ?_
      cases hquery : db.store.query { query with tenant := requester.tenant } <;>
        simp only [carryOut, hstore, hquery, Except.map]
  | explain query =>
      rw [execute]
      refine db.ruled_listing moment freshId requester trivial rfl fun db' hstore => ?_
      cases hplan : db.store.plan { query with tenant := requester.tenant } <;>
        simp only [carryOut, hstore, hplan, Except.map]
  | commit transaction reads writes =>
      exact db.ruled_commit moment freshId requester transaction reads writes

/-- The same without the reasons for which requests are turned down. -/
theorem answered_execute
    (db : Database)
    (moment : Moment)
    (freshId : String)
    (requester : Requester)
    (operation : Operation) :
    Answered db moment freshId requester operation
      (db.execute moment freshId requester operation) :=
  (db.ruled_execute moment freshId requester operation).answered

end Database
end DocumentStore
