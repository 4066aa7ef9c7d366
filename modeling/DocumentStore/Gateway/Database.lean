import DocumentStore.Gateway.Error
import DocumentStore.Gateway.Operation
import DocumentStore.Query.Run

/-!
# The database

Requests pass the access rules before the store or the indexes see them.  A
request touches the documents of its tenant only: a caller whose claims name
another tenant is refused, and so is a path that is rooted at another one.
Queries are judged as listing `tenants/{tenant}/{collection}`.
-/

namespace DocumentStore

/-- Who asks, and for which tenant. -/
structure Requester where
  tenant : String
  caller : Option Claims
  /-- A service is not subject to the rules. -/
  service : Bool
deriving DecidableEq

namespace Requester

/-- A signed-in caller. -/
def signedIn
    (tenant : String)
    (claims : Claims) :
    Requester :=
  ⟨tenant, some claims, false⟩

/-- A caller without claims. -/
def anonymous (tenant : String) : Requester :=
  ⟨tenant, none, false⟩

/-- A service. -/
def ofService (tenant : String) : Requester :=
  ⟨tenant, none, true⟩

/-- The name under which changes are logged. -/
def actor (r : Requester) : String :=
  match r.caller with
  | some claims => claims.uid
  | none => if r.service then "service" else "anonymous"

end Requester

/-- What a successful request returns. -/
inductive Outcome where
  | document (document : Document)
  | deleted (existed : Bool)
  | documents (documents : List Document)
  | plan (plan : Plan)
  | committed (receipt : Receipt)
deriving DecidableEq

/-- What a maintenance run removed. -/
structure SweepReport where
  replies : Nat
  decisions : Nat
deriving DecidableEq, Repr

/-- The number of all removed entries. -/
def SweepReport.total (r : SweepReport) : Nat :=
  r.replies + r.decisions

/-- The collection whose ids name tenants. -/
def tenantRoot : String := "tenants"

/-- The tenant that a path is rooted at. -/
def pathTenant? (path : String) : Option String :=
  match Text.pieces '/' (withoutOuterSlashes path) with
  | root :: tenant :: _ => if root = tenantRoot then some tenant else none
  | _ => none

/-- The path that a query is judged by. -/
def listPath (tenant collection : String) : String :=
  tenantRoot ++ "/" ++ tenant ++ "/" ++ withoutOuterSlashes collection

/-- A database: its settings, its store, and the guard before it. -/
structure Database where
  settings : Settings
  store : Store
  guard : Guard

namespace Database

/-- The answer to a request, and the database after it. -/
abbrev Response := Except RequestError Outcome × Database

/-- A database with rules. -/
def new
    (settings : Settings)
    (rules : RuleSet) :
    Except SettingsFault Database :=
  match settings.fault? with
  | some fault => .error fault
  | none =>
      .ok
        { settings
          store :=
            Store.new settings.store.maxTransactionOps.toNat
              settings.store.idempotencyCapacity.toNat
              (settings.store.idempotencyTtlSecs.toNat * Guard.instantsPerSecond)
              settings.index.tenantField
          guard := Guard.new rules settings.rules }

/-- Put other rules in force; the kept decisions are forgotten. -/
def loadRules
    (db : Database)
    (rules : RuleSet) :
    Database :=
  { db with guard := Guard.new rules db.settings.rules }

/-- Declare an index. -/
def createIndex
    (db : Database)
    (definition : IndexDefinition) :
    Except IndexError IndexDefinition × Database :=
  let (result, store) := db.store.createIndex definition
  (result, { db with store })

/-- Remove an index. -/
def dropIndex
    (db : Database)
    (name : String) :
    Except IndexError IndexDefinition × Database :=
  let (result, store) := db.store.dropIndex name
  (result, { db with store })

/-- What the conditions of the rules see of a request. -/
def accessContext
    (db : Database)
    (requester : Requester)
    (resource : Option Document)
    (payload : Option Json) :
    AccessContext where
  caller := requester.caller
  resource
  payload
  tenant := some requester.tenant
  lookup := some fun path => db.store.exists? requester.tenant path

/-- Why a request leaves its tenant, if it does. -/
def foreign?
    (requester : Requester)
    (path : String) :
    Option Refusal :=
  match pathTenant? path with
  | some named =>
      if named = requester.tenant then callerForeign? else
        some (.foreignPath named requester.tenant)
  | none => callerForeign?
where
  /-- Whether the claims of the caller name another tenant; a service has none. -/
  callerForeign? : Option Refusal :=
    if requester.service then none
    else
      match requester.caller.bind Claims.tenant with
      | some claimed =>
          if claimed = requester.tenant then none
          else some (.foreignCaller claimed requester.tenant)
      | none => none

/-- Let the tenants and the rules judge an access; none means that it may go on. -/
def authorize
    (db : Database)
    (instant : Nat)
    (requester : Requester)
    (kind : AccessKind)
    (path : String)
    (resource : Option Document)
    (payload : Option Json) :
    Option RequestError × Database :=
  match foreign? requester path with
  | some refusal => (some (.denied kind path refusal), db)
  | none =>
      if requester.service then (none, db)
      else
        let ctx := db.accessContext requester resource payload
        let (ruling, guard) := db.guard.evaluate instant kind path ctx
        let db := { db with guard }
        match ruling.decision with
        | .allow _ => (none, db)
        | .deny reason => (some (.denied kind path (.byRules reason.message)), db)

/-- The result of a request on the store, with the database after it. -/
def onStore
    {α : Type}
    (db : Database)
    (outcome : α → Outcome)
    (result : Except StoreError α × Store) :
    Response :=
  match result with
  | (.ok a, store) => (.ok (outcome a), { db with store })
  | (.error e, store) => (.error (.store e), { db with store })

/-- What a single write returns. -/
def outcomeOf : WriteResult → Outcome
  | .written doc => .document doc
  | .deleted existed => .deleted existed

/--
Judge an access to a path named in a request and carry on with the path and
the document stored there.
-/
def accessing
    (db : Database)
    (instant : Nat)
    (requester : Requester)
    (kind : AccessKind)
    (raw : String)
    (payload : Option Json)
    (next : Database → DocumentPath → Option Document → Response) :
    Response :=
  match readPath raw with
  | .error e => (.error (.store e), db)
  | .ok path =>
      let current := db.store.find? requester.tenant path
      match db.authorize instant requester kind raw current payload with
      | (some e, db) => (.error e, db)
      | (none, db) => next db path current

/-- Judge a single write and carry it out. -/
def writing
    (db : Database)
    (moment : Moment)
    (requester : Requester)
    (kind : AccessKind)
    (raw : String)
    (payload : Option Json)
    (key : Option String)
    (writeTo : DocumentPath → Write) :
    Response :=
  db.accessing moment.instant requester kind raw payload fun db path _ =>
    db.onStore outcomeOf
      (db.store.write moment requester.tenant requester.actor (writeTo path) key)

/-- Judge a query and carry on with it. -/
def listing
    (db : Database)
    (instant : Nat)
    (requester : Requester)
    (query : Query)
    (next : QuerySpec → Except IndexError Outcome) :
    Response :=
  let path := listPath requester.tenant query.collection
  match db.authorize instant requester .list path none none with
  | (some e, db) => (.error e, db)
  | (none, db) =>
      match next { query with tenant := requester.tenant } with
      | .ok outcome => (.ok outcome, db)
      | .error e => (.error (.index e), db)

/-- Judge the declared reads of a commit and note them. -/
def declareReads
    (instant : Nat)
    (requester : Requester) :
    List ReadVersion → Transaction → Database →
    Except RequestError Transaction × Database
  | [], tx, db => (.ok tx, db)
  | read :: rest, tx, db =>
      let current := db.store.find? requester.tenant read.path
      match db.authorize instant requester .get read.path.text current none with
      | (some e, db) => (.error e, db)
      | (none, db) =>
          declareReads instant requester rest (tx.noteRead read.path read.version.toNat) db

/-- The kind of access that a write needs. -/
def accessOf (write : Write) : AccessKind :=
  match write.kind with
  | .create => .create
  | .update => .update
  | .delete => .delete

/-- Judge the writes of a commit and gather them. -/
def gatherWrites
    (instant : Nat)
    (requester : Requester) :
    List Write → Transaction → Database →
    Except RequestError Transaction × Database
  | [], tx, db => (.ok tx, db)
  | write :: rest, tx, db =>
      let current := db.store.find? requester.tenant write.path
      match db.authorize instant requester (accessOf write) write.path.text current
          write.payload? with
      | (some e, db) => (.error e, db)
      | (none, db) =>
          match tx.add write with
          | .error e => (.error (.store e), db)
          | .ok tx => gatherWrites instant requester rest tx db

/-- Judge a commit as a whole and carry it out. -/
def commit
    (db : Database)
    (moment : Moment)
    (requester : Requester)
    (id : String)
    (reads : List ReadVersion)
    (writes : List Write) :
    Response :=
  let tx := Transaction.begin requester.tenant id db.store.transactionLimit
  match declareReads moment.instant requester reads tx db with
  | (.error e, db) => (.error e, db)
  | (.ok tx, db) =>
      match gatherWrites moment.instant requester writes tx db with
      | (.error e, db) => (.error e, db)
      | (.ok tx, db) =>
          db.onStore .committed (db.store.commit moment tx requester.actor)

/--
Carry out an operation for a requester.  `freshId` names the transaction of a
commit that brings no name of its own.
-/
def execute
    (db : Database)
    (moment : Moment)
    (freshId : String)
    (requester : Requester) :
    Operation → Response
  | .get raw =>
      db.accessing moment.instant requester .get raw none fun db _ current =>
        match current with
        | some doc => (.ok (.document doc), db)
        | none => (.error (.store (.notFound requester.tenant raw)), db)
  | .create raw data key =>
      db.writing moment requester .create raw (some data) key fun path => .create path data
  | .update raw data ifVersion merge key =>
      db.writing moment requester .update raw (some data) key fun path =>
        .update path data ifVersion merge
  | .delete raw ifVersion key =>
      db.writing moment requester .delete raw none key fun path => .delete path ifVersion
  | .query query =>
      db.listing moment.instant requester query fun spec =>
        (db.store.query spec).map .documents
  | .explain query =>
      db.listing moment.instant requester query fun spec => (db.store.plan spec).map .plan
  | .commit transaction reads writes =>
      db.commit moment requester (transaction.getD freshId) reads writes

/-- Drop what has expired in the store and in the guard. -/
def sweep
    (db : Database)
    (instant : Nat) :
    SweepReport × Database :=
  let (replies, store) := db.store.sweep instant
  let (decisions, guard) := db.guard.sweep instant
  (⟨replies, decisions⟩, { db with store, guard })

end Database
end DocumentStore
