import DocumentStore.Proofs.Gateway.Histories
import DocumentStore.Proofs.Gateway.ReadOrders
import DocumentStore.Proofs.Gateway.Simulation
import DocumentStore.Proofs.Query.Tenancy

/-!
# Tenants do not interfere

Take any history of a database and leave out all that was done for other
tenants: the requests of a tenant are answered alike.  The two runs are compared
step by step.  The store of the shorter run holds the share of the tenant in the
store of the longer one, and both guards judge the tenant as the rules in force
would judge without kept decisions, so that it does not matter which decisions
were kept.

Each run goes through the reads of its commits in orders of its own.  That is the
one difference that remains: of several stale reads, each run may name another.

The tables of replies have room for all tenants together.  A live reply that
makes room for the reply to another tenant could be missed, so that the full
run must not displace any; in the shorter run it follows.  Readings of the wall
clock increase, as the times of documents would show otherwise how many writes
there were before.
-/

namespace DocumentStore
namespace Database

/-! ### Judging -/

/-- Why an access is refused by the tenants, or by rules that are asked without kept decisions. -/
def refusedAnew?
    (rules : RuleSet)
    (requester : Requester)
    (kind : AccessKind)
    (path : String)
    (ctx : AccessContext) :
    Option RequestError :=
  match foreign? requester path with
  | some refusal => some (.denied kind path refusal)
  | none =>
      if requester.service then none
      else
        match (Guard.ruleAnew rules kind path ctx).decision with
        | .allow _ => none
        | .deny reason => some (.denied kind path (.byRules reason.message))

section

variable
  {known : List Claims}
  {requester : Requester}
  {tenant : String}
  {instant : Nat}
  {readings : List Timestamp}
  {s own : Store}
  {d e : Database}

/-- The decisions that the guard has kept for a tenant were earned under the rules in force. -/
def TrustedFor
    (tenant : String)
    (known : List Claims)
    (db : Database) :
    Prop :=
  Guard.FaithfulFor (fun served => served = some tenant) known db.guard.rules db.guard

theorem TrustedFor.of_faithful
    {rules : RuleSet}
    (h : Guard.FaithfulFor (fun served => served = some tenant) known rules d.guard) :
    TrustedFor tenant known d := by
  unfold TrustedFor
  rw [h.same]
  exact h

/-- A ruling for a requester keeps the guard faithful, whatever callers other tenants have. -/
theorem faithfulFor_evaluate
    {rules : RuleSet}
    {g : Guard}
    {ctx : AccessContext}
    (hg : Guard.FaithfulFor (fun served => served = some tenant) known rules g)
    (hcaller : requester.tenant = tenant → ∀ claims ∈ requester.caller, claims ∈ known)
    (hsame : ctx.caller = requester.caller)
    (htenant : ctx.tenant = some requester.tenant)
    (instant : Nat)
    (kind : AccessKind)
    (path : String) :
    Guard.FaithfulFor (fun served => served = some tenant) known rules
      (g.evaluate instant kind path ctx).2 := by
  refine hg.evaluate_snd instant kind path fun hserved => ?_
  rw [hsame]
  exact hcaller (Option.some.inj (htenant.symm.trans hserved))

theorem TrustedFor.faithful_of_asked
    (h : TrustedFor requester.tenant known d)
    (hcaller : ∀ claims ∈ requester.caller, claims ∈ known)
    (hasked : Asked requester d e) :
    Guard.FaithfulFor (fun served => served = some requester.tenant) known d.guard.rules
      e.guard := by
  refine hasked.preserves_guard ?_ h
  intro g instant kind path ctx hsame htenant hg
  exact faithfulFor_evaluate hg (fun _ => hcaller) hsame htenant instant kind path

/-- A database trusted for a tenant refuses it what the rules refuse without kept decisions. -/
theorem TrustedFor.authorize_fst
    (h : TrustedFor requester.tenant known d)
    (hknown : Claims.ToldApart known)
    (hcaller : ∀ claims ∈ requester.caller, claims ∈ known)
    (instant : Nat)
    (kind : AccessKind)
    (path : String)
    (resource : Option Document)
    (payload : Option Json) :
    (d.authorize instant requester kind path resource payload).1 =
      refusedAnew? d.guard.rules requester kind path
        (d.accessContext requester resource payload) := by
  have hctx : ∀ claims ∈ (d.accessContext requester resource payload).caller,
      claims ∈ known := hcaller
  have hruling := Guard.FaithfulFor.evaluate_fst h hknown instant kind path rfl hctx
  unfold Database.authorize refusedAnew?
  cases foreign? requester path with
  | some refusal =>
      rfl
  | none =>
      by_cases hservice : requester.service = true
      · simp only [if_pos hservice]
      · simp only [if_neg hservice]
        rw [← hruling]
        generalize d.guard.evaluate instant kind path
          (d.accessContext requester resource payload) = evaluated
        obtain ⟨ruling, guard⟩ := evaluated
        cases ruling.decision <;> rfl

/-- Databases over two stores with the same rules in force, both trusted for a tenant. -/
structure Judging
    (tenant : String)
    (known : List Claims)
    (s own : Store)
    (d e : Database) :
    Prop where
  store : d.store = s
  store_own : e.store = own
  rules : e.guard.rules = d.guard.rules
  trusted : TrustedFor tenant known d
  trusted_own : TrustedFor tenant known e

theorem Judging.accessContext_eq
    (h : Judging tenant known s own d e)
    (hshare : s.Share requester.tenant instant readings own)
    (resource : Option Document)
    (payload : Option Json) :
    e.accessContext requester resource payload = d.accessContext requester resource payload := by
  have hexists : e.store.exists? requester.tenant = d.store.exists? requester.tenant := by
    funext path
    unfold Store.exists?
    rw [h.store, h.store_own]
    simp only [hshare.find?_eq]
  unfold accessContext
  rw [hexists]

/-- The accesses of the tenant are judged alike. -/
theorem judgesAlike_judging
    (hknown : Claims.ToldApart known)
    (hcaller : ∀ claims ∈ requester.caller, claims ∈ known)
    (hshare : s.Share requester.tenant instant readings own)
    (now : Nat) :
    JudgesAlike requester now (Judging requester.tenant known s own) where
  find? := by
    intro d e h path
    rw [h.store, h.store_own]
    exact hshare.find?_eq path
  authorize := by
    intro d e h kind path resource payload
    have hfst := h.trusted.authorize_fst hknown hcaller now kind path resource payload
    have hfst_own := h.trusted_own.authorize_fst hknown hcaller now kind path resource payload
    rw [h.rules, h.accessContext_eq hshare, ← hfst] at hfst_own
    have hnext := h.trusted.faithful_of_asked hcaller
      (.single ⟨now, ⟨kind, path, resource, payload⟩, rfl⟩)
    have hnext_own := h.trusted_own.faithful_of_asked hcaller
      (.single ⟨now, ⟨kind, path, resource, payload⟩, rfl⟩)
    dsimp only at hnext hnext_own
    refine .of_fst_eq hfst_own ⟨?_, ?_, ?_, ?_, ?_⟩
    · rw [store_authorize, h.store]
    · rw [store_authorize, h.store_own]
    · exact hnext_own.same.trans (h.rules.trans hnext.same.symm)
    · exact .of_faithful hnext
    · exact .of_faithful hnext_own

end

/-! ### Requests of the tenant -/

section

variable
  {known : List Claims}
  {requester : Requester}
  {moment : Moment}
  {operation : Operation}
  {readings : List Timestamp}
  {db own : Database}

/-- A database and its own one for a tenant, before or after a request of the tenant. -/
def Alike
    (tenant : String)
    (moment : Moment)
    (count : Nat)
    (readings : List Timestamp)
    (db own : Database) :
    Prop :=
  (Store.Serving tenant moment count readings).AtSome db.store own.store

/-- A single write on the stores. -/
theorem alike_write
    {d e : Database}
    (hup : Store.Upcoming moment 1 readings)
    (hshare : db.store.Share requester.tenant moment.instant readings own.store)
    (hkept : db.store.replies.stats.evictions = 0)
    (h : Judging requester.tenant known db.store own.store d e)
    (write : Write)
    (key : Option String) :
    AgreeIn (Alike requester.tenant moment 1 readings)
      (d.onStore outcomeOf (d.store.write moment requester.tenant requester.actor write key))
      (e.onStore outcomeOf (e.store.write moment requester.tenant requester.actor write key)) := by
  rw [h.store, h.store_own]
  refine agreeIn_onStore ((Store.carriesAlike_serving hup).write Nat.one_pos
    (Store.findsAlike_share ..) (fun s t hst => ⟨Nat.zero_le _, hst.1⟩) ⟨hshare, hkept⟩
    requester.actor write key) (fun s t hst => hst) outcomeOf

/-- A request of the tenant is answered alike. -/
theorem alike_execute
    (hknown : Claims.ToldApart known)
    (hcaller : ∀ claims ∈ requester.caller, claims ∈ known)
    (h : Judging requester.tenant known db.store own.store db own)
    (hindexed : db.store.Indexed)
    (hindexed_own : own.store.Indexed)
    (hup : Store.Upcoming moment operation.writeCount readings)
    (hshare : db.store.Share requester.tenant moment.instant readings own.store)
    (hkept : db.store.replies.stats.evictions = 0)
    (freshId : String) :
    AgreeIn (Alike requester.tenant moment operation.writeCount readings)
      (db.execute moment freshId requester operation)
      (own.execute moment freshId requester operation) := by
  have hjudges := judgesAlike_judging hknown hcaller hshare moment.instant
  have hdone : ∀ d e, Judging requester.tenant known db.store own.store d e →
      Alike requester.tenant moment operation.writeCount readings d e := by
    intro d e h
    refine ⟨0, Nat.zero_le _, ?_⟩
    rw [h.store, h.store_own]
    exact hshare
  cases operation with
  | get raw =>
      rw [Database.execute, Database.execute]
      refine hjudges.accessing hdone h .get raw none ?_
      intro d e path current h'
      cases current <;> exact ⟨_, d, e, rfl, rfl, hdone d e h'⟩
  | create raw data key =>
      rw [Database.execute, Database.execute]
      exact hjudges.writing rfl hdone h .create raw (some data) key _
        fun write h' => alike_write hup hshare hkept h' write key
  | update raw data ifVersion merge key =>
      rw [Database.execute, Database.execute]
      exact hjudges.writing rfl hdone h .update raw (some data) key _
        fun write h' => alike_write hup hshare hkept h' write key
  | delete raw ifVersion key =>
      rw [Database.execute, Database.execute]
      exact hjudges.writing rfl hdone h .delete raw none key _
        fun write h' => alike_write hup hshare hkept h' write key
  | query query =>
      rw [Database.execute, Database.execute]
      refine hjudges.listing hdone h query ?_
      rw [hshare.query_eq hindexed hindexed_own rfl]
  | explain query =>
      rw [Database.execute, Database.execute]
      refine hjudges.listing hdone h query ?_
      rw [hshare.plan_eq]
  | commit transaction reads writes =>
      rw [Database.execute, Database.execute]
      refine hjudges.commit rfl hdone h hshare.limit _ reads writes ?_
      intro d e tx h' htenant hwrites
      rw [h'.store, h'.store_own]
      rw [← htenant] at hshare ⊢
      have hcount : tx.writes.length ≤ writes.length := Nat.le_of_eq (congrArg _ hwrites)
      exact agreeIn_onStore ((Store.carriesAlike_serving hup).commit hcount
        (Store.findsAlike_share ..) (fun s t hst => ⟨Nat.zero_le _, hst.1⟩) ⟨hshare, hkept⟩
        requester.actor) (fun s t hst => hst) .committed

end

/-! ### Steps of two runs -/

/-- The rules in force after an action, given those before it. -/
def Action.inForce
    (rules : RuleSet) :
    Action → RuleSet
  | .loadRules rules => rules
  | _ => rules

section

variable
  {known : List Claims}
  {tenant : String}
  {db : Database}
  {action : Action}

/-- An action leaves a guard that is faithful to the rules in force after it. -/
theorem TrustedFor.faithful_after
    (h : TrustedFor tenant known db)
    (hcaller : action.concerns tenant → ∀ claims ∈ action.caller?, claims ∈ known) :
    Guard.FaithfulFor (fun served => served = some tenant) known
      (action.inForce db.guard.rules) (db.after action).guard := by
  cases action with
  | execute moment freshId requester operation =>
      have hknown : requester.tenant = tenant → ∀ claims ∈ requester.caller, claims ∈ known :=
        fun hsame => hcaller ((concerns_iff rfl).2 hsame)
      refine preserves_guard_execute ?_ h moment freshId operation
      intro g instant kind path ctx hsame htenant hg
      exact faithfulFor_evaluate hg hknown hsame htenant instant kind path
  | loadRules rules =>
      exact .new ..
  | sweep instant =>
      exact Guard.FaithfulFor.sweep h instant
  | _ =>
      exact h

end

/-- A reachable database and one of its own for a tenant. -/
structure Paired
    (known : List Claims)
    (tenant : String)
    (instant : Nat)
    (readings : List Timestamp)
    (db own : Database) :
    Prop where
  judging : Judging tenant known db.store own.store db own
  reachable : Reachable db
  reachable_own : Reachable own
  share : db.store.Share tenant instant readings own.store

theorem Paired.later
    {known : List Claims}
    {tenant : String}
    {instant instant' : Nat}
    {readings : List Timestamp}
    {db own : Database}
    (h : Paired known tenant instant readings db own)
    (hle : instant ≤ instant') :
    Paired known tenant instant' readings db own :=
  ⟨h.judging, h.reachable, h.reachable_own, h.share.later hle fun _ hreading => hreading⟩

section

variable
  {known : List Claims}
  {tenant : String}
  {instant : Nat}
  {later : List Timestamp}
  {db own : Database}
  {action : Action}
  {task : Task}

/-- The guards go on to judge alike when both databases see an action. -/
theorem Judging.after
    (h : Judging tenant known db.store own.store db own)
    (hcaller : action.concerns tenant → ∀ claims ∈ action.caller?, claims ∈ known) :
    Judging tenant known (db.after action).store (own.after action).store (db.after action)
      (own.after action) where
  store := rfl
  store_own := rfl
  rules := by
    rw [(h.trusted.faithful_after hcaller).same, (h.trusted_own.faithful_after hcaller).same,
      h.rules]
  trusted := .of_faithful (h.trusted.faithful_after hcaller)
  trusted_own := .of_faithful (h.trusted_own.faithful_after hcaller)

/-- The guards go on to judge alike when the full database sees work for a tenant. -/
theorem Judging.after_left
    (h : Judging tenant known db.store own.store db own)
    (hcaller : action.concerns tenant → ∀ claims ∈ action.caller?, claims ∈ known)
    (htask : action.task? = some task) :
    Judging tenant known (db.after action).store own.store (db.after action) own where
  store := rfl
  store_own := rfl
  rules := by
    rw [(h.trusted.faithful_after hcaller).same, h.rules]
    cases action with
    | loadRules rules =>
        cases htask
    | _ =>
        rfl
  trusted := .of_faithful (h.trusted.faithful_after hcaller)
  trusted_own := h.trusted_own

theorem upcoming_of_pairwise
    (h : (task.readings ++ later).Pairwise fun a b => a.micros < b.micros) :
    Store.Upcoming task.moment task.writes (task.readings ++ later) where
  increasing := h
  wall := by
    intro n hn
    rw [List.getElem?_append_left (by simpa using hn)]
    simp [Task.readings, hn]

/-- A request of the tenant in both runs. -/
theorem Paired.execute
    {moment : Moment}
    {requester : Requester}
    {operation : Operation}
    (h : Paired known requester.tenant moment.instant
      ((Task.mk requester.tenant moment operation.writeCount).readings ++ later) db own)
    (hknown : Claims.ToldApart known)
    (hcaller : ∀ claims ∈ requester.caller, claims ∈ known)
    (hreadings : ((Task.mk requester.tenant moment operation.writeCount).readings ++
      later).Pairwise fun a b => a.micros < b.micros)
    (hkept : db.store.replies.stats.evictions = 0)
    (freshId : String) :
    AgreeIn
      (Alike requester.tenant moment operation.writeCount
        ((Task.mk requester.tenant moment operation.writeCount).readings ++ later))
      (db.execute moment freshId requester operation)
      (own.execute moment freshId requester operation) :=
  alike_execute hknown hcaller h.judging h.reachable.indexed h.reachable_own.indexed
    (upcoming_of_pairwise hreadings) h.share hkept freshId

/-- Work for the tenant keeps two runs paired. -/
theorem Paired.after_own
    (h : Paired known task.tenant task.moment.instant (task.readings ++ later) db own)
    (hknown : Claims.ToldApart known)
    (hcaller : ∀ claims ∈ action.caller?, claims ∈ known)
    (htask : action.task? = some task)
    (hreadings : (task.readings ++ later).Pairwise fun a b => a.micros < b.micros)
    (hkept : db.store.replies.stats.evictions = 0) :
    Paired known task.tenant task.moment.instant later (db.after action) (own.after action) := by
  have hcarries : Store.CarriesAlike task.tenant task.moment task.writes
      (Store.Serving task.tenant task.moment task.writes (task.readings ++ later)) :=
    Store.carriesAlike_serving (upcoming_of_pairwise hreadings)
  have hfinds := Store.findsAlike_share task.tenant task.moment (task.readings ++ later)
  have hstart : ∀ s t,
      s.Share task.tenant task.moment.instant (task.readings ++ later) t ∧
          s.replies.stats.evictions = 0 →
        Store.Serving task.tenant task.moment task.writes (task.readings ++ later) 0 s t :=
    fun s t hst => ⟨Nat.zero_le _, hst.1⟩
  have hboth := And.intro h.share hkept
  refine ⟨h.judging.after fun _ => hcaller, h.reachable.step action, h.reachable_own.step action, ?_⟩
  cases action with
  | execute moment freshId requester operation =>
      obtain rfl := Option.some.inj htask
      rw [Database.after, Database.after]
      exact .of_serving (h.execute hknown hcaller hreadings hkept freshId).snd (Task.length_readings _)
  | create moment tenant actor raw data key =>
      obtain rfl := Option.some.inj htask
      rw [Database.after, Database.after]
      dsimp only at hcarries hfinds hstart hboth ⊢
      exact .of_serving (hcarries.create Nat.one_pos hfinds hstart hboth actor raw data key).snd
        (Task.length_readings _)
  | update moment tenant actor raw data ifVersion merge key =>
      obtain rfl := Option.some.inj htask
      rw [Database.after, Database.after]
      dsimp only at hcarries hfinds hstart hboth ⊢
      exact .of_serving
        (hcarries.update Nat.one_pos hfinds hstart hboth actor raw data ifVersion merge key).snd
        (Task.length_readings _)
  | delete moment tenant actor raw ifVersion key =>
      obtain rfl := Option.some.inj htask
      rw [Database.after, Database.after]
      dsimp only at hcarries hfinds hstart hboth ⊢
      exact .of_serving (hcarries.delete Nat.one_pos hfinds hstart hboth actor raw ifVersion key).snd
        (Task.length_readings _)
  | commit moment tx actor =>
      obtain rfl := Option.some.inj htask
      rw [Database.after, Database.after]
      exact .of_serving (hcarries.commit (Nat.le_refl _) hfinds hstart hboth actor).snd
        (Task.length_readings _)
  | _ =>
      cases htask

/-- Work for another tenant in the full run only keeps two runs paired. -/
theorem Paired.after_other
    (h : Paired known tenant task.moment.instant (task.readings ++ later) db own)
    (htask : action.task? = some task)
    (htenant : task.tenant ≠ tenant)
    (hreadings : (task.readings ++ later).Pairwise fun a b => a.micros < b.micros) :
    Paired known tenant task.moment.instant later (db.after action) own := by
  have hkeeps : Store.Keeps task.tenant task.moment task.writes fun n s =>
      Store.Serving tenant task.moment task.writes (task.readings ++ later) n s own.store :=
    Store.keeps_serving (upcoming_of_pairwise hreadings) htenant
  have hcaller : action.concerns tenant → ∀ claims ∈ action.caller?, claims ∈ known :=
    fun hconcerns => absurd ((concerns_iff htask).1 hconcerns) htenant
  refine ⟨h.judging.after_left hcaller htask, h.reachable.step action, h.reachable_own, ?_⟩
  exact .of_serving (keeps_after htask hkeeps ⟨Nat.zero_le _, h.share⟩) task.length_readings

theorem Paired.after_shared
    (h : Paired known tenant instant later db own)
    (htask : action.task? = none)
    (hinstant : ∀ now ∈ action.instant?, now = instant) :
    Paired known tenant instant later (db.after action) (own.after action) := by
  have hcaller : ∀ claims ∈ action.caller?, claims ∈ known := by
    cases action with
    | execute moment freshId requester operation =>
        cases htask
    | _ =>
        rintro _ ⟨⟩
  refine ⟨h.judging.after fun _ => hcaller, h.reachable.step action, h.reachable_own.step action, ?_⟩
  cases action with
  | createIndex definition =>
      exact h.share.createIndex definition
  | dropIndex name =>
      exact h.share.dropIndex name
  | loadRules rules =>
      exact h.share
  | sweep now =>
      obtain rfl := hinstant now rfl
      exact h.share.sweep
  | _ =>
      cases htask

end

/-! ### Histories -/

/-- Time goes on in a history: instants do not decrease, and readings of the wall clock increase. -/
structure InOrder (history : List Action) : Prop where
  instants : (history.filterMap Action.instant?).Pairwise (· ≤ ·)
  readings : (history.flatMap Action.readings).Pairwise fun a b => a.micros < b.micros

/-- What is left of a history when all work for other tenants is left out. -/
def withoutOthers
    (tenant : String)
    (history : List Action) :
    List Action :=
  history.filter (Action.concerns tenant)

section

variable
  {known : List Claims}
  {tenant : String}
  {instant : Nat}
  {later : List Timestamp}
  {db own : Database}
  {action : Action}
  {task : Task}

theorem answered?_of_no_task
    (db : Database)
    (tenant : String)
    (htask : action.task? = none) :
    db.answered? tenant action = none := by
  cases action with
  | execute moment freshId requester operation =>
      cases htask
  | _ =>
      rfl

theorem answered?_of_other
    (db : Database)
    (htask : action.task? = some task)
    (htenant : task.tenant ≠ tenant) :
    db.answered? tenant action = none := by
  cases action with
  | execute moment freshId requester operation =>
      obtain rfl := Option.some.inj htask
      exact if_neg htenant
  | _ =>
      rfl

theorem Paired.answered?_eq
    (h : Paired known task.tenant task.moment.instant (task.readings ++ later) db own)
    (hknown : Claims.ToldApart known)
    (hcaller : ∀ claims ∈ action.caller?, claims ∈ known)
    (htask : action.task? = some task)
    (hreadings : (task.readings ++ later).Pairwise fun a b => a.micros < b.micros)
    (hkept : db.store.replies.stats.evictions = 0) :
    own.answered? task.tenant action = db.answered? task.tenant action := by
  cases action with
  | execute moment freshId requester operation =>
      obtain rfl := Option.some.inj htask
      have hsame := (h.execute hknown hcaller hreadings hkept freshId).fst_eq
      rw [answered?, answered?, if_pos rfl, if_pos rfl, hsame]
  | _ =>
      rfl

theorem instant?_of_task
    (htask : action.task? = some task) :
    action.instant? = some task.moment.instant := by
  cases action with
  | sweep now =>
      cases htask
  | _ =>
      exact congrArg (Option.map fun task => task.moment.instant) htask

/-- The readings for work are those of its task, and there are none for other actions. -/
theorem readings_eq (action : Action) :
    action.readings = (action.task?.map Task.readings).getD [] := by
  unfold Action.readings
  cases action.task? <;> rfl

/-- What comes after the first action of a history is in order, and not before it. -/
theorem InOrder.rest
    {rest : List Action}
    (h : InOrder (action :: rest))
    (hinstants : ∀ now ∈ (action :: rest).filterMap Action.instant?, instant ≤ now) :
    InOrder rest ∧ instant ≤ action.instant?.getD instant ∧
      ∀ now ∈ rest.filterMap Action.instant?, action.instant?.getD instant ≤ now := by
  obtain ⟨hordered, hreadings⟩ := h
  rw [List.flatMap_cons] at hreadings
  have hrest := hreadings.sublist (List.sublist_append_right _ _)
  cases hinstant : action.instant? with
  | none =>
      rw [List.filterMap_cons_none hinstant] at hordered hinstants
      exact ⟨⟨hordered, hrest⟩, Nat.le_refl _, hinstants⟩
  | some now =>
      rw [List.filterMap_cons_some hinstant] at hordered hinstants
      obtain ⟨hfirst, hothers⟩ := List.pairwise_cons.1 hordered
      exact ⟨⟨hothers, hrest⟩, hinstants now List.mem_cons_self, hfirst⟩

/-- Paired databases give the requests of the tenant the same answers in a history. -/
theorem Paired.answers_eq
    {history : List Action}
    (h : Paired known tenant instant (history.flatMap Action.readings) db own)
    (hknown : Claims.ToldApart known)
    (hcallers : ∀ claims ∈ callers (withoutOthers tenant history), claims ∈ known)
    (horder : InOrder history)
    (hinstants : ∀ now ∈ history.filterMap Action.instant?, instant ≤ now)
    (hkept : (db.run history).store.replies.stats.evictions = 0) :
    own.answers tenant (withoutOthers tenant history) = db.answers tenant history := by
  induction history generalizing db own instant with
  | nil =>
      rfl
  | cons action rest ih =>
      obtain ⟨hrest, hle, hafter⟩ := horder.rest hinstants
      have hcaller : action.concerns tenant → ∀ claims ∈ action.caller?, claims ∈ known :=
        fun hconcerns claims hclaims => hcallers claims
          (List.mem_filterMap.2 ⟨action, List.mem_filter.2 ⟨List.mem_cons_self, hconcerns⟩, hclaims⟩)
      have hcallers_rest : ∀ claims ∈ callers (withoutOthers tenant rest), claims ∈ known := by
        intro claims hclaims
        refine hcallers claims (List.Sublist.subset ?_ hclaims)
        exact ((List.sublist_cons_self action rest).filter _).filterMap _
      have hkept_rest : ((db.after action).run rest).store.replies.stats.evictions = 0 := hkept
      have hkept_now : db.store.replies.stats.evictions = 0 := by
        have hstep := db.evictions_le_after action
        have hrun := (db.after action).evictions_le_run rest
        omega
      replace h := h.later hle
      have hincreasing := horder.readings
      rw [List.flatMap_cons, readings_eq] at h hincreasing
      unfold withoutOthers at ih hcallers_rest ⊢
      cases htask : action.task? with
      | none =>
          rw [htask] at h
          have hnext := h.after_shared htask fun now hnow => by rw [Option.mem_def.1 hnow]; rfl
          have hconcerns : action.concerns tenant = true := by rw [Action.concerns, htask]
          rw [List.filter_cons_of_pos hconcerns, answers, answers, answered?_of_no_task own tenant htask,
            answered?_of_no_task db tenant htask, ih hnext hcallers_rest hrest hafter hkept_rest]
      | some task =>
          rw [htask] at h hincreasing
          rw [instant?_of_task htask] at h hafter
          by_cases htenant : task.tenant = tenant
          · subst htenant
            have hconcerns : action.concerns task.tenant := (concerns_iff htask).2 rfl
            have hnext := h.after_own hknown (hcaller hconcerns) htask hincreasing hkept_now
            rw [List.filter_cons_of_pos hconcerns, answers, answers,
              h.answered?_eq hknown (hcaller hconcerns) htask hincreasing hkept_now,
              ih hnext hcallers_rest hrest hafter hkept_rest]
          · have hconcerns : ¬ action.concerns tenant := mt (concerns_iff htask).1 htenant
            have hnext := h.after_other htask htenant hincreasing
            rw [List.filter_cons_of_neg hconcerns, answers, answered?_of_other db htask htenant,
              ih hnext hcallers_rest hrest hafter hkept_rest]
            rfl

end

/-- A database that was just opened is paired with itself. -/
theorem Paired.opened
    {settings : Settings}
    {rules : RuleSet}
    {db : Database}
    (h : Database.new settings rules = .ok db)
    (known : List Claims)
    (tenant : String)
    (instant : Nat)
    (readings : List Timestamp) :
    Paired known tenant instant readings db db where
  judging :=
    { store := rfl
      store_own := rfl
      rules := rfl
      trusted := (Trusted.opened h known).faithfulFor _
      trusted_own := (Trusted.opened h known).faithfulFor _ }
  reachable := .opened h
  reachable_own := .opened h
  share := by
    rw [(store_new h).2]
    exact .new ..

/--
In every history of a database that goes on in order and displaces no live
reply, the requests of a tenant get the answers that they get when all work for
other tenants is left out and chance has the reads of commits gone through in the
same orders.  In whatever orders that run goes through them, the requests are
answered alike: of several stale reads, it may name another one.  The callers of
the tenant are to be told apart by their fingerprints, as a kept decision could be
used for the wrong one otherwise.
-/
theorem answers_without_others
    {settings : Settings}
    {rules : RuleSet}
    {db : Database}
    (hopened : Database.new settings rules = .ok db)
    (tenant : String)
    {history : List Action}
    (horder : InOrder history)
    (hkept : (db.run history).store.replies.stats.evictions = 0)
    (hdistinct : Claims.ToldApart (callers (withoutOthers tenant history))) :
    db.answers tenant (withoutOthers tenant history) = db.answers tenant history ∧
    ∀ own, Reordered (withoutOthers tenant history) own →
      List.Forall₂ AnsweredAlike (db.answers tenant history) (db.answers tenant own) := by
  have hsame : db.answers tenant (withoutOthers tenant history) = db.answers tenant history :=
    (Paired.opened hopened _ tenant 0 _).answers_eq hdistinct (fun _ h => h) horder
      (fun _ _ => Nat.zero_le _) hkept
  refine ⟨hsame, fun own hown => ?_⟩
  rw [← hsame]
  exact hown.answered_alike tenant db

/-- The path of a profile. -/
def profilePath : DocumentPath := ⟨"profiles/ada", by decide +kernel⟩

/-- The path of a profile that is never there. -/
def otherProfilePath : DocumentPath := ⟨"profiles/ben", by decide +kernel⟩

/--
Two tenants use the same path and the same key; one of them asks for its profiles
at last, and commits with two reads that are stale.
-/
def sharedHistory : List Action :=
  [.execute ⟨0, fun _ => ⟨1⟩⟩ "u" (.signedIn "acme" Guard.ada)
    (.create "profiles/ada" (inState (.string "open")) (some "k")),
   .createIndex ⟨"by_state", "profiles", [⟨"state", .desc⟩]⟩,
   .execute ⟨1, fun _ => ⟨2⟩⟩ "u" (.ofService "zeta")
    (.create "profiles/ada" (inState (.string "done")) (some "k")),
   .execute ⟨2, fun _ => ⟨3⟩⟩ "u" (.signedIn "acme" Guard.ben) (.get "profiles/ada"),
   .execute ⟨3, fun n => ⟨4 + n⟩⟩ "u" (.ofService "zeta")
    (.commit (some "t") [] [.delete profilePath none, .create profilePath (inState .null)]),
   .sweep 4,
   .loadRules RuleSet.empty,
   .execute ⟨5, fun _ => ⟨9⟩⟩ "u" (.ofService "acme")
    (.query ⟨"profiles", [], [⟨"state", .desc⟩], none⟩),
   .execute ⟨6, fun _ => ⟨10⟩⟩ "u" (.ofService "acme")
    (.commit (some "t") [⟨profilePath, 7⟩, ⟨otherProfilePath, 8⟩] [.delete profilePath none])]

/-- What the one tenant does by itself, its reads gone through backwards. -/
def ownHistory : List Action :=
  (withoutOthers "acme" sharedHistory).map fun action => action.reordered .reversed

/--
The tenant has its profile created, a stranger refused and the one profile
listed, either way; of the stale reads, each run names the one it comes to first.
-/
theorem answers_in_sharedHistory :
    Database.new {} keptProfiles = .ok tended ∧
    InOrder sharedHistory ∧
    (tended.run sharedHistory).store.replies.stats.evictions = 0 ∧
    Claims.ToldApart (callers (withoutOthers "acme" sharedHistory)) ∧
    ownHistory.length = 7 ∧
    tended.answers "acme" (withoutOthers "acme" sharedHistory) =
      tended.answers "acme" sharedHistory ∧
    (tended.answers "acme" ownHistory).length = 4 ∧
    ((tended.answers "acme" sharedHistory).map Prod.snd).getLast? =
      some (.error (.store (.versionConflict "profiles/ada" 7 1))) ∧
    ((tended.answers "acme" ownHistory).map Prod.snd).getLast? =
      some (.error (.store (.versionConflict "profiles/ben" 8 0))) ∧
    List.Forall₂ AnsweredAlike (tended.answers "acme" sharedHistory)
      (tended.answers "acme" ownHistory) := by
  have hopened : Database.new {} keptProfiles = .ok tended := rfl
  have horder : InOrder sharedHistory := ⟨by decide +kernel, by decide +kernel⟩
  have hkept : (tended.run sharedHistory).store.replies.stats.evictions = 0 := by decide +kernel
  have hdistinct : Claims.ToldApart (callers (withoutOthers "acme" sharedHistory)) := by
    have hknown : ∀ claims ∈ [Guard.ada, Guard.ben], claims ∈ Guard.callers Guard.visits :=
      fun claims h => List.mem_append_left [Guard.ada, Guard.ben] h
    intro a ha b hb
    exact Guard.toldApart_callers_visits a (hknown a ha) b (hknown b hb)
  obtain ⟨hsame, halike⟩ := answers_without_others hopened "acme" horder hkept hdistinct
  exact ⟨hopened, horder, hkept, hdistinct, by decide +kernel, hsame, by decide +kernel,
    by decide +kernel, by decide +kernel, halike ownHistory (reordered_map ..)⟩

end Database
end DocumentStore
