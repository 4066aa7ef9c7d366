import DocumentStore.Proofs.Access.Guard
import DocumentStore.Proofs.Gateway.Partition
import DocumentStore.Proofs.Path
import DocumentStore.Proofs.Store.Entries

/-!
# Every write was allowed

Whatever a request leaves in the log, the rules in force allowed it, asked
without any kept decision: for the kind of access and the path of the entry,
with the document that stood there, the payload of the write, and the other
documents of the tenant as they were before the request.  So it is with a
document that a request reads.

The rules are asked about the path as it was written, and the store is changed
at its normal form; both have the same segments.  Decisions may be kept ones.
In a database that came about by any actions they were all earned under the
rules in force, so that they say what the rules would say anew.
-/

namespace DocumentStore

/-- The kind of access that a change needs. -/
def ChangeKind.access : ChangeKind → AccessKind
  | create => .create
  | update => .update
  | delete => .delete

theorem Database.accessOf_eq (write : Write) :
    accessOf write = write.kind.access := by
  cases write <;> rfl

/-- The writes that an operation asks for, with the origins of the entries that they leave. -/
def Operation.originated
    (actor freshId : String) :
    Operation → List (Write × Origin)
  | .create raw data key => Write.requested actor raw key fun path => .create path data
  | .update raw data ifVersion merge key =>
      Write.requested actor raw key fun path => .update path data ifVersion merge
  | .delete raw ifVersion key => Write.requested actor raw key fun path => .delete path ifVersion
  | .commit transaction _ writes => Write.originated (transaction.getD freshId) actor 0 writes
  | _ => []

namespace Guard

/-- What the rules allow on a path, they allow on the same path with other outer slashes. -/
theorem allowed_of_withoutOuterSlashes_eq
    {rules : RuleSet}
    {kind : AccessKind}
    {path other : String}
    {ctx : AccessContext}
    (hpath : withoutOuterSlashes other = withoutOuterSlashes path)
    (h : (ruleAnew rules kind path ctx).decision.allowed = true) :
    (ruleAnew rules kind other ctx).decision.allowed = true := by
  unfold ruleAnew at h ⊢
  rw [segments?_of_withoutOuterSlashes_eq hpath]
  cases hsegments : segments? path with
  | none =>
      rw [hsegments] at h
      cases h
  | some segments =>
      rw [hsegments] at h
      exact h

end Guard

namespace Database

/-- All that stands between a requester and a path lets the access pass. -/
structure Mediated
    (db : Database)
    (requester : Requester)
    (kind : AccessKind)
    (path : DocumentPath)
    (payload : Option Json) :
    Prop where
  /-- A path below the root of the tenants belongs to the tenant asked for. -/
  partition :
    path.segments[0]? = some tenantRoot → path.segments[1]? = some requester.tenant
  /-- The claims name no tenant or the one asked for. -/
  caller :
    requester.service = false →
      ∀ claimed, requester.caller.bind Claims.tenant = some claimed → claimed = requester.tenant
  /-- The rules in force allow the access when they are asked without kept decisions. -/
  rules :
    requester.service = false →
      (Guard.ruleAnew db.guard.rules kind path.text
        (db.accessContext requester (db.store.find? requester.tenant path)
          payload)).decision.allowed = true

/-! ### Kept decisions -/

/-- The decisions that the guard has kept were earned under the rules in force. -/
def Trusted
    (known : List Claims)
    (db : Database) :
    Prop :=
  Guard.Faithful known db.guard.rules db.guard

theorem Trusted.of_faithful
    {known : List Claims}
    {rules : RuleSet}
    {db : Database}
    (h : Guard.Faithful known rules db.guard) :
    Trusted known db := by
  unfold Trusted
  rw [h.same]
  exact h

variable {known : List Claims} {db : Database} {requester : Requester}

theorem guard_authorize
    (db : Database)
    (instant : Nat)
    (requester : Requester)
    (kind : AccessKind)
    (path : String)
    (resource : Option Document)
    (payload : Option Json) :
    (db.authorize instant requester kind path resource payload).2.guard = db.guard ∨
      (db.authorize instant requester kind path resource payload).2.guard =
        (db.guard.evaluate instant kind path
          (db.accessContext requester resource payload)).2 := by
  unfold Database.authorize
  split
  · exact .inl rfl
  · split
    · exact .inl rfl
    · right
      dsimp only
      generalize db.guard.evaluate instant kind path _ = result
      obtain ⟨ruling, guard⟩ := result
      dsimp only
      cases ruling.decision <;> rfl

/-- What is granted to one who is subject to the rules, the guard allows. -/
theorem allowed_evaluate_of_authorize
    {db : Database}
    {instant : Nat}
    {requester : Requester}
    {kind : AccessKind}
    {path : String}
    {resource : Option Document}
    {payload : Option Json}
    (hservice : requester.service = false)
    (h : (db.authorize instant requester kind path resource payload).1 = none) :
    (db.guard.evaluate instant kind path
      (db.accessContext requester resource payload)).1.decision.allowed = true := by
  have hforeign := foreign?_eq_none_of_authorize h
  unfold Database.authorize at h
  simp only [hforeign, hservice, Bool.false_eq_true, if_false] at h
  generalize db.guard.evaluate instant kind path _ = result at h ⊢
  obtain ⟨ruling, guard⟩ := result
  dsimp only at h ⊢
  cases hdecision : ruling.decision with
  | allow rule =>
      rfl
  | deny reason =>
      rw [hdecision] at h
      cases h

/-- What a guard keeps when it rules for a requester, it keeps when accesses are judged. -/
theorem Asked.preserves_guard
    {db' : Database}
    (hasked : Asked requester db db')
    {P : Guard → Prop}
    (hevaluate : ∀ (g : Guard) instant kind path ctx,
      ctx.caller = requester.caller → ctx.tenant = some requester.tenant → P g →
        P (g.evaluate instant kind path ctx).2)
    (h : P db.guard) :
    P db'.guard := by
  refine hasked.preserves (motive := fun d => P d.guard) ?_ h
  intro d instant access hd
  rcases d.guard_authorize instant requester access.kind access.path access.resource
    access.payload with heq | heq
  · rw [heq]
    exact hd
  · rw [heq]
    exact hevaluate d.guard instant access.kind access.path _ rfl rfl hd

theorem Trusted.faithful_of_asked
    {db' : Database}
    (h : Trusted known db)
    (hcaller : ∀ claims ∈ requester.caller, claims ∈ known)
    (hasked : Asked requester db db') :
    Guard.Faithful known db.guard.rules db'.guard := by
  refine hasked.preserves_guard ?_ h
  intro g instant kind path ctx hsame _ hg
  exact hg.evaluate_snd instant kind path (hsame ▸ hcaller)

/-- An access that is granted is allowed by the rules without kept decisions. -/
theorem Trusted.allowed_of_authorize
    {instant : Nat}
    {access : Access}
    (h : Trusted known db)
    (hknown : Claims.ToldApart known)
    (hcaller : ∀ claims ∈ requester.caller, claims ∈ known)
    (hnone : (db.authorize instant requester access.kind access.path access.resource
      access.payload).1 = none)
    (hservice : requester.service = false) :
    (Guard.ruleAnew db.guard.rules access.kind access.path
      (db.accessContext requester access.resource access.payload)).decision.allowed = true := by
  have hctx : ∀ claims ∈ (db.accessContext requester access.resource access.payload).caller,
      claims ∈ known := hcaller
  have hruling := Guard.Faithful.evaluate_fst h hknown instant access.kind access.path hctx
  rw [← hruling]
  exact allowed_evaluate_of_authorize hservice hnone

theorem accessContext_congr
    {db' : Database}
    (h : db'.store = db.store)
    (requester : Requester)
    (resource : Option Document)
    (payload : Option Json) :
    db'.accessContext requester resource payload =
      db.accessContext requester resource payload := by
  unfold accessContext
  rw [h]

/-! ### Granted accesses -/

/-- A path that is not foreign lies within the tenant asked for. -/
theorem partition_of_foreign?_eq_none
    {path : DocumentPath}
    {raw : String}
    (hraw : withoutOuterSlashes raw = path.text)
    (h : foreign? requester raw = none)
    (hroot : path.segments[0]? = some tenantRoot) :
    path.segments[1]? = some requester.tenant := by
  have hpieces : path.segments = Text.pieces '/' (withoutOuterSlashes raw) := by
    rw [hraw, DocumentPath.segments]
  have htwo := path.two_le_length_segments
  rcases hsegments : path.segments with _ | ⟨root, _ | ⟨named, rest⟩⟩
  · rw [hsegments] at hroot
    cases hroot
  · rw [hsegments] at htwo
    simp at htwo
  · rw [hsegments] at hroot hpieces
    obtain rfl : root = tenantRoot := Option.some.inj hroot
    by_cases hnamed : named = requester.tenant
    · rw [hnamed]
      rfl
    · exact absurd h (foreign?_ne_none_of_rootedAt ⟨rest, hpieces.symm⟩ hnamed)

theorem caller_of_foreign?_eq_none
    {raw : String}
    (h : foreign? requester raw = none)
    (hservice : requester.service = false)
    (claimed : String)
    (hclaimed : requester.caller.bind Claims.tenant = some claimed) :
    claimed = requester.tenant := by
  by_cases hsame : claimed = requester.tenant
  · exact hsame
  · exact absurd h (foreign?_ne_none_of_isForeign ⟨hservice, claimed, hclaimed, hsame⟩ raw)

/-- A granted access to the document at a path is mediated. -/
theorem Granted.mediated
    {db' : Database}
    {instant : Nat}
    {accesses : List Access}
    (h : Granted instant requester accesses db db')
    (htrusted : Trusted known db)
    (hknown : Claims.ToldApart known)
    (hcaller : ∀ claims ∈ requester.caller, claims ∈ known)
    {access : Access}
    (hmem : access ∈ accesses)
    {path : DocumentPath}
    (hpath : withoutOuterSlashes access.path = path.text)
    (hresource : access.resource = db.store.find? requester.tenant path) :
    Mediated db requester access.kind path access.payload := by
  obtain ⟨between, hasked, hnone⟩ := h.exists_of_mem hmem
  have hforeign : foreign? requester access.path = none :=
    foreign?_eq_none_of_authorize hnone
  have hfaithful := htrusted.faithful_of_asked hcaller hasked
  refine ⟨partition_of_foreign?_eq_none hpath hforeign,
    caller_of_foreign?_eq_none hforeign, fun hservice => ?_⟩
  have hallowed := (Trusted.of_faithful hfaithful).allowed_of_authorize hknown hcaller hnone
    hservice
  rw [hfaithful.same, accessContext_congr hasked.store_eq, hresource] at hallowed
  refine Guard.allowed_of_withoutOuterSlashes_eq ?_ hallowed
  rw [DocumentPath.withoutOuterSlashes_eq_self path.sound, hpath]

theorem withoutOuterSlashes_of_readPath
    {raw : String}
    {path : DocumentPath}
    (h : readPath raw = .ok path) :
    withoutOuterSlashes raw = path.text := by
  unfold readPath at h
  split at h
  · next hparse =>
      cases h
      exact (DocumentPath.text_of_parse hparse).symm
  · cases h

/-- The granted access of a single operation is mediated at the path that it names. -/
theorem Granted.mediated_named
    {db' : Database}
    {instant : Nat}
    {kind : AccessKind}
    {raw : String}
    {payload : Option Json}
    (h : Granted instant requester [.named db.store requester.tenant kind raw payload] db db')
    (htrusted : Trusted known db)
    (hknown : Claims.ToldApart known)
    (hcaller : ∀ claims ∈ requester.caller, claims ∈ known)
    {path : DocumentPath}
    (hpath : readPath raw = .ok path) :
    Mediated db requester kind path payload := by
  refine h.mediated htrusted hknown hcaller List.mem_cons_self
    (withoutOuterSlashes_of_readPath hpath) ?_
  simp only [Access.named, hpath]

/-- When all accesses of an operation are granted, each of its writes is mediated. -/
theorem Granted.mediated_write
    {db' : Database}
    {instant : Nat}
    {operation : Operation}
    (h : Granted instant requester (operation.accesses db.store requester.tenant) db db')
    (htrusted : Trusted known db)
    (hknown : Claims.ToldApart known)
    (hcaller : ∀ claims ∈ requester.caller, claims ∈ known)
    {freshId : String}
    {write : Write}
    {origin : Origin}
    (hmem : (write, origin) ∈ operation.originated requester.actor freshId) :
    Mediated db requester write.kind.access write.path write.payload? := by
  cases operation with
  | create raw data key =>
      rw [Operation.originated] at hmem
      rw [Operation.accesses] at h
      obtain ⟨path, hpath, rfl⟩ := Write.of_mem_requested hmem
      exact h.mediated_named htrusted hknown hcaller hpath
  | update raw data ifVersion merge key =>
      rw [Operation.originated] at hmem
      rw [Operation.accesses] at h
      obtain ⟨path, hpath, rfl⟩ := Write.of_mem_requested hmem
      exact h.mediated_named htrusted hknown hcaller hpath
  | delete raw ifVersion key =>
      rw [Operation.originated] at hmem
      rw [Operation.accesses] at h
      obtain ⟨path, hpath, rfl⟩ := Write.of_mem_requested hmem
      exact h.mediated_named htrusted hknown hcaller hpath
  | commit transaction reads writes =>
      have hwrite : write ∈ writes := Write.mem_of_mem_originated hmem
      have haccess : Access.ofWrite db.store requester.tenant write ∈
          (Operation.commit transaction reads writes).accesses db.store requester.tenant :=
        List.mem_append_right _ (List.mem_map_of_mem hwrite)
      rw [← accessOf_eq]
      exact h.mediated htrusted hknown hcaller haccess
        (DocumentPath.withoutOuterSlashes_eq_self write.path.sound) rfl
  | _ =>
      cases hmem

/-! ### What requests leave in the log -/

/-- An operation that is carried out leaves entries of its writes. -/
theorem logs_carryOut
    (db : Database)
    (moment : Moment)
    (freshId : String)
    (requester : Requester)
    (operation : Operation) :
    Store.Logs requester.tenant (operation.originated requester.actor freshId) db.store
      (db.carryOut moment freshId requester operation).2.store := by
  cases operation with
  | create raw data key =>
      rw [carryOut, store_onStore, Operation.originated]
      exact db.store.logs_create moment requester.tenant requester.actor raw data key
  | update raw data ifVersion merge key =>
      rw [carryOut, store_onStore, Operation.originated]
      exact db.store.logs_update moment requester.tenant requester.actor raw data ifVersion merge
        key
  | delete raw ifVersion key =>
      rw [carryOut, store_onStore, Operation.originated]
      exact db.store.logs_delete moment requester.tenant requester.actor raw ifVersion key
  | commit transaction reads writes =>
      have hlogs := db.store.logs_commit moment
        (Transaction.declared requester.tenant (transaction.getD freshId)
          db.store.transactionLimit reads writes) requester.actor
      rw [Transaction.tenant_declared, Transaction.id_declared,
        Transaction.writes_declared] at hlogs
      rw [carryOut, store_onStore, Operation.originated]
      exact hlogs
  | get raw =>
      rw [carryOut]
      split
      · exact .of_consulted (.refl db.store) _ _
      · split <;> exact .of_consulted (.refl db.store) _ _
  | query query =>
      rw [carryOut]
      split <;> exact .of_consulted (.refl db.store) _ _
  | explain query =>
      rw [carryOut]
      split <;> exact .of_consulted (.refl db.store) _ _

/-- Carrying out an operation leaves the guard alone. -/
theorem guard_carryOut
    (db : Database)
    (moment : Moment)
    (freshId : String)
    (requester : Requester)
    (operation : Operation) :
    (db.carryOut moment freshId requester operation).2.guard = db.guard := by
  have honStore : ∀ {α : Type} (outcome : α → Outcome) (result : Except StoreError α × Store),
      (db.onStore outcome result).2.guard = db.guard := by
    intro α outcome result
    unfold onStore
    split <;> rfl
  have hcarried := db.carried_carryOut moment freshId requester operation
  generalize callOf? requester freshId db.store.transactionLimit operation = call? at hcarried
  generalize db.carryOut moment freshId requester operation = response at hcarried ⊢
  cases hcarried with
  | reads answer =>
      rfl
  | calls hserve =>
      exact honStore _ _

/-! ### Histories -/

/-- The claims of the one who makes a request, if there are any. -/
def Action.caller? : Action → Option Claims
  | .execute _ _ requester _ => requester.caller
  | _ => none

/-- The claims of all who make requests. -/
def callers (history : List Action) : List Claims :=
  history.filterMap Action.caller?

/-- What a guard keeps when it rules for a requester, it keeps when a request is executed. -/
theorem preserves_guard_execute
    {P : Guard → Prop}
    (hevaluate : ∀ (g : Guard) instant kind path ctx,
      ctx.caller = requester.caller → ctx.tenant = some requester.tenant → P g →
        P (g.evaluate instant kind path ctx).2)
    (h : P db.guard)
    (moment : Moment)
    (freshId : String)
    (operation : Operation) :
    P (db.execute moment freshId requester operation).2.guard := by
  have hanswered := db.answered_execute moment freshId requester operation
  generalize db.execute moment freshId requester operation = response at hanswered ⊢
  cases hanswered with
  | turnedDown hasked =>
      exact hasked.preserves_guard hevaluate h
  | carriedOut hgranted =>
      rw [guard_carryOut]
      exact hgranted.asked.preserves_guard hevaluate h

/-- A request keeps a database trusted. -/
theorem Trusted.execute
    (h : Trusted known db)
    (hcaller : ∀ claims ∈ requester.caller, claims ∈ known)
    (moment : Moment)
    (freshId : String)
    (operation : Operation) :
    Trusted known (db.execute moment freshId requester operation).2 := by
  refine .of_faithful (preserves_guard_execute ?_ h moment freshId operation)
  intro g instant kind path ctx hsame _ hg
  exact hg.evaluate_snd instant kind path (hsame ▸ hcaller)

theorem Trusted.of_guard_eq
    {db' : Database}
    (h : Trusted known db)
    (hguard : db'.guard = db.guard) :
    Trusted known db' := by
  unfold Trusted
  rw [hguard]
  exact h

/-- An action keeps a database trusted. -/
theorem Trusted.after
    (h : Trusted known db)
    {action : Action}
    (hcaller : ∀ claims ∈ action.caller?, claims ∈ known) :
    Trusted known (db.after action) := by
  cases action with
  | execute moment freshId requester operation =>
      exact h.execute hcaller moment freshId operation
  | loadRules rules =>
      exact .of_faithful (Guard.Faithful.new known rules _)
  | sweep instant =>
      exact .of_faithful (Guard.Faithful.sweep h instant)
  | createIndex definition =>
      exact h.of_guard_eq rfl
  | dropIndex name =>
      exact h.of_guard_eq rfl
  | _ =>
      refine h.of_guard_eq ?_
      rw [Database.after]

theorem Trusted.run
    (h : Trusted known db)
    {history : List Action}
    (hcallers : ∀ claims ∈ callers history, claims ∈ known) :
    Trusted known (db.run history) := by
  induction history generalizing db with
  | nil =>
      exact h
  | cons action rest ih =>
      refine ih (h.after fun claims hclaims => hcallers claims ?_) fun claims hclaims =>
        hcallers claims ?_
      · exact List.mem_filterMap.2 ⟨action, List.mem_cons_self, hclaims⟩
      · obtain ⟨later, hmem, hlater⟩ := List.mem_filterMap.1 hclaims
        exact List.mem_filterMap.2 ⟨later, List.mem_cons_of_mem _ hmem, hlater⟩

theorem Trusted.opened
    {settings : Settings}
    {rules : RuleSet}
    (hopened : Database.new settings rules = .ok db)
    (known : List Claims) :
    Trusted known db := by
  unfold Database.new at hopened
  split at hopened
  · cases hopened
  · cases hopened
    exact .of_faithful (Guard.Faithful.new known rules _)

/--
After any history, every entry that a request adds to the log belongs to the
tenant asked for, tells of a write that the request asks for, and was mediated:
its path lies in the tenant, the caller claims no other one, and the rules in
force allow it, asked without kept decisions on the database before the
request.  A document that a request reads was mediated as well.  The callers
of the history and of the request are to be told apart by their fingerprints.
-/
theorem execute_mediates
    {settings : Settings}
    {rules : RuleSet}
    {opened : Database}
    (hopened : Database.new settings rules = .ok opened)
    (history : List Action)
    (moment : Moment)
    (freshId : String)
    (requester : Requester)
    (operation : Operation)
    (hdistinct : Claims.ToldApart
      (callers (history ++ [.execute moment freshId requester operation]))) :
    let db := opened.run history
    let response := db.execute moment freshId requester operation
    (∃ entries, response.2.store.log.entries = db.store.log.entries ++ entries ∧
      ∀ e ∈ entries, e.tenant = requester.tenant ∧
        ∃ write, (write, e.origin) ∈ operation.originated requester.actor freshId ∧
          e.Tells requester.tenant write ∧
          Mediated db requester e.kind.access e.path write.payload?) ∧
    ∀ raw doc, operation = .get raw → response.1 = .ok (.document doc) →
      ∃ path, readPath raw = .ok path ∧ db.store.find? requester.tenant path = some doc ∧
        Mediated db requester .get path none := by
  intro db response
  have hcallers : ∀ claims ∈ callers history,
      claims ∈ callers (history ++ [.execute moment freshId requester operation]) := by
    intro claims hclaims
    rw [callers, List.filterMap_append]
    exact List.mem_append_left _ hclaims
  have hcaller : ∀ claims ∈ requester.caller,
      claims ∈ callers (history ++ [.execute moment freshId requester operation]) := by
    intro claims hclaims
    rw [callers, List.filterMap_append]
    exact List.mem_append_right _ (List.mem_filterMap.2 ⟨_, List.mem_singleton_self _, hclaims⟩)
  have htrusted : Trusted (callers (history ++ [.execute moment freshId requester operation])) db :=
    (Trusted.opened hopened _).run hcallers
  have hanswered : Answered db moment freshId requester operation response :=
    db.answered_execute moment freshId requester operation
  clear_value db response
  cases hanswered with
  | turnedDown hasked =>
      refine ⟨⟨[], by rw [hasked.store_eq, List.append_nil], by simp⟩, ?_⟩
      rintro raw doc - ⟨⟩
  | @carriedOut db' hgranted =>
      have hstore := hgranted.asked.store_eq
      constructor
      · obtain ⟨entries, hlog, hleft⟩ := db'.logs_carryOut moment freshId requester operation
        refine ⟨entries, by rw [hlog, hstore], fun e he => ?_⟩
        obtain ⟨write, hmem, htells⟩ := hleft.exists_write e he
        refine ⟨htells.tenant, write, hmem, htells, ?_⟩
        rw [htells.kind, htells.path]
        exact hgranted.mediated_write htrusted hdistinct hcaller hmem
      · rintro raw doc rfl hdoc
        simp only [carryOut, hstore] at hdoc
        split at hdoc
        · cases hdoc
        · next path hpath =>
            split at hdoc
            · next found hfind =>
                cases hdoc
                exact ⟨path, hpath, hfind,
                  Granted.mediated_named hgranted htrusted hdistinct hcaller hpath⟩
            · cases hdoc

/-- All may create and read their own profile, and nothing else. -/
def keptProfiles : RuleSet :=
  let own : Rule :=
    ⟨"own", "profiles/\x7buid\x7d", [.create, .get], 0,
      .compare .eq (.var "auth" ["uid"]) (.var "uid" [])⟩
  ⟨[own], .node [("profiles", .node [] (some ("uid", .node [] none [own])) [])] none []⟩

/-- A database with the default settings and these rules. -/
def tended : Database :=
  { fresh with guard := Guard.new keptProfiles {} }

/-- Two callers look for their profiles in vain. -/
def lookAround : List Action :=
  let moment : Moment := ⟨0, fun _ => ⟨7⟩⟩
  [.execute moment "u" (.signedIn "acme" Guard.ada) (.get "profiles/ada"),
   .execute moment "u" (.signedIn "acme" Guard.ben) (.get "profiles/ben")]

/-- One of them creates hers, with slashes around the path. -/
def ownProfile : Operation :=
  .create "/profiles/ada/" (.ofNat 1) (some "k")

/-- Her profile is the only entry of the log, and it was mediated. -/
theorem ownProfile_is_mediated :
    Database.new {} keptProfiles = .ok tended ∧
    Claims.ToldApart (callers (lookAround ++
      [.execute ⟨5, fun _ => ⟨9⟩⟩ "u" (.signedIn "acme" Guard.ada) ownProfile])) ∧
    ∃ e, ((tended.run lookAround).execute ⟨5, fun _ => ⟨9⟩⟩ "u" (.signedIn "acme" Guard.ada)
        ownProfile).2.store.log.entries = [e] ∧ e.path.text = "profiles/ada" ∧
      Mediated (tended.run lookAround) (.signedIn "acme" Guard.ada) .create e.path
        (some (.ofNat 1)) := by
  have hopened : Database.new {} keptProfiles = .ok tended := rfl
  have hdistinct : Claims.ToldApart (callers (lookAround ++
      [.execute ⟨5, fun _ => ⟨9⟩⟩ "u" (.signedIn "acme" Guard.ada) ownProfile])) := by
    have hknown : ∀ claims ∈ [Guard.ada, Guard.ben, Guard.ada],
        claims ∈ Guard.callers Guard.visits := by
      intro claims h
      exact List.mem_append_left [Guard.ben] h
    intro a ha b hb
    exact Guard.toldApart_callers_visits a (hknown a ha) b (hknown b hb)
  refine ⟨hopened, hdistinct, ?_⟩
  obtain ⟨⟨entries, hlog, hall⟩, -⟩ :=
    execute_mediates hopened lookAround ⟨5, fun _ => ⟨9⟩⟩ "u" (.signedIn "acme" Guard.ada)
      ownProfile hdistinct
  have hbefore : (tended.run lookAround).store.log.entries = [] := by decide +kernel
  have hseen : ((tended.run lookAround).execute ⟨5, fun _ => ⟨9⟩⟩ "u" (.signedIn "acme" Guard.ada)
      ownProfile).2.store.log.entries.map (fun e => (e.kind, e.path.text)) =
      [(.create, "profiles/ada")] := by decide +kernel
  have hentries := hlog.trans (congrArg (· ++ entries) hbefore)
  rw [hentries] at hseen ⊢
  obtain ⟨e, rest, rfl, heq, hrest⟩ := List.map_eq_cons_iff.1 hseen
  obtain rfl := List.map_eq_nil_iff.1 hrest
  obtain ⟨hkind, hpath⟩ := Prod.mk.inj heq
  obtain ⟨-, write, hmem, -, hmediated⟩ := hall e List.mem_cons_self
  rw [ownProfile, Operation.originated] at hmem
  obtain ⟨path, -, rfl⟩ := Write.of_mem_requested hmem
  rw [hkind] at hmediated
  exact ⟨e, rfl, hpath, hmediated⟩

end Database
end DocumentStore
