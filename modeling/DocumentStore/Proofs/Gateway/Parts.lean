import DocumentStore.Proofs.Access.Questions
import DocumentStore.Proofs.Gateway.Mediation
import DocumentStore.Proofs.Gateway.Refusals

/-!
# The writes of a commit as requests of their own

All writes of a commit are judged before the first is carried out.  So whatever
a commit is granted, its writes are granted when they are asked for one by one,
as long as the rules see what they have seen before the commit: the same
document at the path of the write, and the same answers to what they ask about
other paths.  When an earlier write has changed what the rules see, a later one
may be denied that the commit was granted.
-/

namespace DocumentStore

/-- The operation that asks for a write on its own. -/
def Write.request : Write → Operation
  | create path data => .create path.text data none
  | update path data ifVersion merge => .update path.text data ifVersion merge none
  | delete path ifVersion => .delete path.text ifVersion none

theorem Write.accesses_request
    (write : Write)
    (store : Store)
    (tenant : String) :
    write.request.accesses store tenant = [.ofWrite store tenant write] := by
  cases write <;>
    simp only [request, Operation.accesses, Access.named, readPath_text, Access.ofWrite, path,
      payload?, Database.accessOf, kind]

/-- Entries of writes to other places leave the document at a place alone. -/
theorem Left.get?_of_ne
    {tenant : String}
    {writes : List (Write × Origin)}
    {docs docs' : Documents}
    {entries : List LogEntry}
    {place : DocumentKey}
    (h : Left tenant writes docs entries docs')
    (hne : ∀ w ∈ writes, place ≠ ⟨tenant, w.1.path⟩) :
    docs'.get? place = docs.get? place := by
  induction h with
  | nil =>
      rfl
  | silent _ ih =>
      exact ih fun w hw => hne w (List.mem_cons_of_mem _ hw)
  | entry sequence happlied _ ih =>
      rw [ih fun w hw => hne w (List.mem_cons_of_mem _ hw)]
      exact Documents.get?_of_applied_of_ne happlied (hne _ List.mem_cons_self)

/-- Entries of updates, and of writes to other places, leave a document at a place or none. -/
theorem Left.isSome_get?
    {tenant : String}
    {writes : List (Write × Origin)}
    {docs docs' : Documents}
    {entries : List LogEntry}
    {place : DocumentKey}
    (h : Left tenant writes docs entries docs')
    (hupdates : ∀ w ∈ writes, w.1.kind = .update ∨ place ≠ ⟨tenant, w.1.path⟩) :
    (docs'.get? place).isSome = (docs.get? place).isSome := by
  induction h with
  | nil =>
      rfl
  | silent _ ih =>
      exact ih fun w hw => hupdates w (List.mem_cons_of_mem _ hw)
  | entry sequence happlied _ ih =>
      rw [ih fun w hw => hupdates w (List.mem_cons_of_mem _ hw)]
      rcases hupdates _ List.mem_cons_self with hkind | hne
      · cases happlied with
        | create hnone =>
            cases hkind
        | @update path data ifVersion merge before hsome hguard =>
            rw [OrderedMap.get?_insert]
            split
            · next heq =>
                rw [heq, hsome]
                rfl
            · rfl
        | delete hsome hguard =>
            cases hkind
      · rw [Documents.get?_of_applied_of_ne happlied hne]

/-- What some writes leave and then others do is left by all of them. -/
theorem Left.append
    {tenant : String}
    {writes writes' : List (Write × Origin)}
    {docs docs' docs'' : Documents}
    {entries entries' : List LogEntry}
    (h : Left tenant writes docs entries docs')
    (h' : Left tenant writes' docs' entries' docs'') :
    Left tenant (writes ++ writes') docs (entries ++ entries') docs'' := by
  induction h with
  | nil =>
      exact h'
  | silent _ ih =>
      exact .silent (ih h')
  | entry sequence happlied _ ih =>
      exact .entry sequence happlied (ih h')

namespace Database

variable {known : List Claims} {db db' : Database} {requester : Requester} {write : Write}

/-! ### Writes that pass -/

/-- The ruling on a write, without kept decisions. -/
def rulingOn
    (db : Database)
    (requester : Requester)
    (write : Write) :
    Ruling :=
  Guard.ruleAnew db.guard.rules (accessOf write) write.path.text
    (db.accessContext requester (db.store.find? requester.tenant write.path) write.payload?)

/-- Neither the tenants nor the rules, asked without kept decisions, stand in the way of a write. -/
structure Passes
    (db : Database)
    (requester : Requester)
    (write : Write) :
    Prop where
  inside : foreign? requester write.path.text = none
  rules : requester.service = false → (db.rulingOn requester write).decision.allowed = true

/-- The writes of a commit that is granted all its accesses pass. -/
theorem Granted.passes
    {instant : Nat}
    {transaction : Option String}
    {reads : List ReadVersion}
    {writes : List Write}
    (h : Granted instant requester
      ((Operation.commit transaction reads writes).accesses db.store requester.tenant) db db')
    (htrusted : Trusted known db)
    (hknown : Claims.ToldApart known)
    (hcaller : ∀ claims ∈ requester.caller, claims ∈ known)
    (hwrite : write ∈ writes) :
    Passes db requester write := by
  have hmem : Access.ofWrite db.store requester.tenant write ∈
      (Operation.commit transaction reads writes).accesses db.store requester.tenant :=
    List.mem_append_right _ (List.mem_map_of_mem hwrite)
  exact
    { inside := h.foreign?_eq_none _ (List.mem_map_of_mem hmem)
      rules := (h.mediated htrusted hknown hcaller hmem
        (DocumentPath.withoutOuterSlashes_eq_self write.path.sound) rfl).rules }

/-- Two databases look alike to the rules of the first when they judge a write. -/
structure SeenAlike
    (requester : Requester)
    (write : Write)
    (db db' : Database) :
    Prop where
  document :
    db'.store.find? requester.tenant write.path = db.store.find? requester.tenant write.path
  /-- The paths that the ruling asks about have documents in both or in neither. -/
  existence :
    ∀ raw ∈ (db.rulingOn requester write).asked,
      db'.store.exists? requester.tenant raw = db.store.exists? requester.tenant raw

theorem SeenAlike.rulingOn_eq
    (h : SeenAlike requester write db db')
    (hrules : db'.guard.rules = db.guard.rules) :
    db'.rulingOn requester write = db.rulingOn requester write := by
  have hsame := Guard.ruleAnew_answering db.guard.rules (accessOf write) write.path.text
    (db.accessContext requester (db.store.find? requester.tenant write.path) write.payload?)
    h.existence
  unfold rulingOn accessContext
  rw [hrules, h.document]
  exact hsame

theorem Passes.of_seenAlike
    (h : Passes db requester write)
    (hrules : db'.guard.rules = db.guard.rules)
    (hseen : SeenAlike requester write db db') :
    Passes db' requester write where
  inside := h.inside
  rules := by
    intro hservice
    rw [hseen.rulingOn_eq hrules]
    exact h.rules hservice

theorem Passes.authorize
    (h : Passes db requester write)
    (htrusted : Trusted known db)
    (hknown : Claims.ToldApart known)
    (hcaller : ∀ claims ∈ requester.caller, claims ∈ known)
    (instant : Nat) :
    (db.authorize instant requester (accessOf write) write.path.text
      (db.store.find? requester.tenant write.path) write.payload?).1 = none := by
  have hcallers : ∀ claims ∈ (db.accessContext requester
      (db.store.find? requester.tenant write.path) write.payload?).caller, claims ∈ known :=
    hcaller
  refine Option.eq_none_iff_forall_ne_some.2 fun e he => ?_
  obtain ⟨hservice, reason, hdecision, -⟩ := decision_of_authorize h.inside he
  have hallowed := h.rules hservice
  unfold rulingOn at hallowed
  rw [← Guard.Faithful.evaluate_fst htrusted hknown instant _ _ hcallers, hdecision] at hallowed
  cases hallowed

theorem onStore_ne_denied
    {α : Type}
    (db : Database)
    (outcome : α → Outcome)
    (served : Except StoreError α × Store)
    (kind : AccessKind)
    (path : String)
    (refusal : Refusal) :
    (db.onStore outcome served).1 ≠ .error (.denied kind path refusal) := by
  obtain ⟨result, store⟩ := served
  intro h
  cases result <;> cases h

/-- A request for a write that passes is not denied. -/
theorem Passes.not_denied
    (h : Passes db requester write)
    (htrusted : Trusted known db)
    (hknown : Claims.ToldApart known)
    (hcaller : ∀ claims ∈ requester.caller, claims ∈ known)
    (moment : Moment)
    (freshId : String)
    (kind : AccessKind)
    (path : String)
    (refusal : Refusal) :
    (db.execute moment freshId requester write.request).1 ≠
      .error (.denied kind path refusal) := by
  have hruled := db.ruled_execute moment freshId requester write.request
  generalize db.execute moment freshId requester write.request = response at hruled ⊢
  cases hruled with
  | declined hdeclined =>
      cases hdeclined with
      | unfit hunfit hasked =>
          intro heq
          cases heq
      | denied hdenied =>
          cases hdenied with
          | @intro access judged _ _ hmem hasked hauthorize =>
              rw [write.accesses_request] at hmem
              obtain rfl := List.mem_singleton.1 hmem
              -- whatever was judged before, the guard is as good as new
              have hfaithful := htrusted.faithful_of_asked hcaller hasked
              have hpasses : Passes judged requester write :=
                h.of_seenAlike hfaithful.same
                  ⟨by rw [hasked.store_eq], fun raw _ => by rw [hasked.store_eq]⟩
              have hgranted := hpasses.authorize (.of_faithful hfaithful) hknown hcaller
                moment.instant
              rw [hasked.store_eq] at hgranted
              cases hgranted.symm.trans (congrArg Prod.fst hauthorize)
  | carriedOut hfits hgranted =>
      cases write <;> rw [Write.request, carryOut] <;>
        exact onStore_ne_denied _ _ _ kind path refusal

/-! ### One request after the other -/

/-- A requester asks for some writes, one after the other, each at a moment of its own. -/
inductive Separately (requester : Requester) : List Write → List Action → Prop
  | nil : Separately requester [] []
  | cons
      {write : Write}
      {rest : List Write}
      {requests : List Action}
      (moment : Moment)
      (freshId : String)
      (h : Separately requester rest requests) :
      Separately requester (write :: rest)
        (.execute moment freshId requester write.request :: requests)

/-- Requests for writes keep a guard faithful to the same rules. -/
theorem Separately.faithful_run
    {rules : RuleSet}
    {writes : List Write}
    {requests : List Action}
    (hrequests : Separately requester writes requests)
    (hcaller : ∀ claims ∈ requester.caller, claims ∈ known)
    (h : Guard.Faithful known rules db.guard) :
    Guard.Faithful known rules (db.run requests).guard := by
  induction hrequests generalizing db with
  | nil =>
      exact h
  | cons moment freshId _ ih =>
      refine ih (preserves_guard_execute ?_ h moment freshId _)
      intro g instant kind path ctx hsame _ hg
      exact hg.evaluate_snd instant kind path (hsame ▸ hcaller)

/-- The write of a request on its own is the one that was asked for. -/
theorem originated_request
    (actor freshId : String)
    (write : Write) :
    write.request.originated actor freshId = [(write, ⟨actor, none, none⟩)] := by
  cases write <;>
    simp only [Write.request, Operation.originated, Write.requested, readPath_text]

/-- What a request leaves in the log tells what it does to the documents. -/
theorem logs_execute
    (db : Database)
    (moment : Moment)
    (freshId : String)
    (requester : Requester)
    (operation : Operation) :
    Store.Logs requester.tenant (operation.originated requester.actor freshId) db.store
      (db.execute moment freshId requester operation).2.store := by
  have hanswered := db.answered_execute moment freshId requester operation
  generalize db.execute moment freshId requester operation = response at hanswered ⊢
  cases hanswered with
  | turnedDown hasked =>
      rw [hasked.store_eq]
      exact .of_consulted (.refl db.store) _ _
  | @carriedOut db' hgranted =>
      rw [← hgranted.asked.store_eq]
      exact db'.logs_carryOut moment freshId requester operation

/-- What requests for writes leave in the log tells what they do to the documents. -/
theorem Separately.left_run
    {writes : List Write}
    {requests : List Action}
    (hrequests : Separately requester writes requests) :
    ∃ entries, Left requester.tenant (writes.map fun w => (w, ⟨requester.actor, none, none⟩))
      db.store.documents entries (db.run requests).store.documents := by
  induction hrequests generalizing db with
  | nil =>
      exact ⟨[], .nil _⟩
  | @cons write rest requests moment freshId _ ih =>
      obtain ⟨entries, -, hleft⟩ := db.logs_execute moment freshId requester write.request
      rw [originated_request] at hleft
      obtain ⟨entries', hrest⟩ := @ih (db.execute moment freshId requester write.request).2
      exact ⟨entries ++ entries', hleft.append hrest⟩

/--
Whoever has only written to other paths, and has only updated where the rules ask
about a path, sees the same as before.
-/
theorem Separately.seenAlike_run
    {writes : List Write}
    {requests : List Action}
    (hrequests : Separately requester writes requests)
    (hothers : ∀ other ∈ writes, other.path ≠ write.path)
    (hupdates : ∀ raw ∈ (db.rulingOn requester write).asked, ∀ other ∈ writes,
      other.kind = .update ∨ DocumentPath.parse raw ≠ .ok other.path) :
    SeenAlike requester write db (db.run requests) := by
  obtain ⟨entries, hleft⟩ := @hrequests.left_run db
  refine ⟨hleft.get?_of_ne ?_, fun raw hraw => ?_⟩
  · intro w hw heq
    obtain ⟨other, hother, rfl⟩ := List.mem_map.1 hw
    exact hothers other hother (DocumentKey.mk.inj heq).2.symm
  · unfold Store.exists?
    cases hpath : DocumentPath.parse raw with
    | error fault =>
        rfl
    | ok path =>
        refine hleft.isSome_get? fun w hw => ?_
        obtain ⟨other, hother, rfl⟩ := List.mem_map.1 hw
        refine (hupdates raw hraw other hother).imp_right fun hne heq => hne ?_
        rw [hpath, (DocumentKey.mk.inj heq).2]

/--
After any history, a commit that succeeds is granted no more than its writes are
one by one.  Each of them may be asked for on its own in the place of the
commit, and is not denied.  Nor is it denied when those before it were asked for
on their own, in this order and at any moments, provided that they have left as
it was the document at its path, and as they were the answers to what the ruling
on it asks about other paths.
The callers of the history and of the commit are to be told apart by their
fingerprints.
-/
theorem commit_is_granted_in_parts
    {settings : Settings}
    {rules : RuleSet}
    {opened : Database}
    (hopened : Database.new settings rules = .ok opened)
    (history : List Action)
    {moment : Moment}
    {freshId : String}
    {transaction : Option String}
    {reads : List ReadVersion}
    {writes : List Write}
    {outcome : Outcome}
    (hdistinct : Claims.ToldApart (callers
      (history ++ [.execute moment freshId requester (.commit transaction reads writes)])))
    (hok : ((opened.run history).execute moment freshId requester
      (.commit transaction reads writes)).1 = .ok outcome) :
    let db := opened.run history
    (∀ write ∈ writes, ∀ moment freshId kind path refusal,
      (db.execute moment freshId requester write.request).1 ≠
        .error (.denied kind path refusal)) ∧
    ∀ earlier write later requests, writes = earlier ++ write :: later →
      Separately requester earlier requests →
      SeenAlike requester write db (db.run requests) →
      ∀ moment freshId kind path refusal,
        ((db.run requests).execute moment freshId requester write.request).1 ≠
          .error (.denied kind path refusal) := by
  intro db
  have hcallers : ∀ claims ∈ callers history, claims ∈ callers
      (history ++ [.execute moment freshId requester (.commit transaction reads writes)]) := by
    intro claims hclaims
    rw [callers, List.filterMap_append]
    exact List.mem_append_left _ hclaims
  have hcaller : ∀ claims ∈ requester.caller, claims ∈ callers
      (history ++ [.execute moment freshId requester (.commit transaction reads writes)]) := by
    intro claims hclaims
    rw [callers, List.filterMap_append]
    exact List.mem_append_right _ (List.mem_filterMap.2 ⟨_, List.mem_singleton_self _, hclaims⟩)
  have htrusted := (Trusted.opened hopened _).run hcallers
  have hpasses : ∀ write ∈ writes, Passes db requester write := by
    intro write hwrite
    have hanswered : Answered db moment freshId requester (.commit transaction reads writes)
        (db.execute moment freshId requester (.commit transaction reads writes)) :=
      db.answered_execute moment freshId requester (.commit transaction reads writes)
    change (db.execute moment freshId requester (.commit transaction reads writes)).1 =
      .ok outcome at hok
    generalize db.execute moment freshId requester (.commit transaction reads writes) =
      response at hanswered hok
    cases hanswered with
    | turnedDown hasked =>
        cases hok
    | carriedOut hgranted =>
        exact hgranted.passes htrusted hdistinct hcaller hwrite
  constructor
  · intro write hwrite
    exact (hpasses write hwrite).not_denied htrusted hdistinct hcaller
  · intro earlier write later requests hwrites hseparately hseen
    have hfaithful := hseparately.faithful_run hcaller htrusted
    have hpass := (hpasses write (by simp [hwrites])).of_seenAlike hfaithful.same hseen
    exact hpass.not_denied (.of_faithful hfaithful) hdistinct hcaller

/-- All may file orders, and update those that are open while there is no lock. -/
def openOnly : RuleSet :=
  let filed : Rule := ⟨"filed", "orders/\x7bid\x7d", [.create], 0, .literal (.bool true)⟩
  let opened : Rule :=
    ⟨"opened", "orders/\x7bid\x7d", [.update], 0,
      .and (.compare .eq (.var "resource" ["data", "state"]) (.literal (.string "open")))
        (.not (.call Builtin.exists [.literal (.string "locks/orders")]))⟩
  ⟨[filed, opened],
    .node [("orders", .node [] (some ("id", .node [] none [filed, opened])) [])] none []⟩

/-- A database with the default settings and these rules. -/
def desk : Database :=
  { fresh with guard := Guard.new openOnly {} }

/-- A caller of `acme` who works at the desk. -/
def clerk : Requester := .signedIn "acme" Guard.ada

/-- Two orders are open. -/
def twoOpen : List Action :=
  [.create ⟨0, fun _ => ⟨7⟩⟩ "acme" "shop" "orders/1" (.object [("state", .string "open")]) none,
   .create ⟨0, fun _ => ⟨7⟩⟩ "acme" "shop" "orders/2" (.object [("state", .string "open")]) none]

/-- A third order is filed. -/
def filing : Write :=
  .create ⟨"orders/3", by decide +kernel⟩ (.object [("state", .string "open")])

/-- An order is closed. -/
def closing (path : DocumentPath) : Write :=
  .update path (.object [("state", .string "closed")]) none false

/-- A closed order gets a note. -/
def noting (path : DocumentPath) : Write :=
  .update path (.object [("note", .string "done"), ("state", .string "closed")]) none false

/-- The first order is closed on its own. -/
def closeFirst : List Action :=
  [.execute ⟨5, fun _ => ⟨9⟩⟩ "v" clerk (closing firstOrder).request]

/-- The third order is filed and the first one closed, each on its own. -/
def fileAndCloseFirst : List Action :=
  .execute ⟨5, fun _ => ⟨9⟩⟩ "v" clerk filing.request :: closeFirst

/-- An order is filed and two are closed in one commit. -/
def closeBoth : Operation := .commit (some "t") [] [filing, closing firstOrder, closing secondOrder]

/--
Two open orders that may be closed in one commit, along with filing a third, may be
closed one after the other: the lock that is asked about is not there either way.
-/
theorem closeBoth_is_granted_in_parts :
    Database.new {} openOnly = .ok desk ∧
    Claims.ToldApart (callers (twoOpen ++ [.execute ⟨5, fun _ => ⟨9⟩⟩ "u" clerk closeBoth])) ∧
    (∃ receipt, ((desk.run twoOpen).execute ⟨5, fun _ => ⟨9⟩⟩ "u" clerk closeBoth).1 =
      .ok (.committed receipt)) ∧
    Separately clerk [filing, closing firstOrder] fileAndCloseFirst ∧
    ((desk.run twoOpen).rulingOn clerk (closing secondOrder)).asked = ["locks/orders"] ∧
    SeenAlike clerk (closing secondOrder) (desk.run twoOpen)
      ((desk.run twoOpen).run fileAndCloseFirst) ∧
    ∀ moment freshId kind path refusal,
      (((desk.run twoOpen).run fileAndCloseFirst).execute moment freshId clerk
        (closing secondOrder).request).1 ≠ .error (.denied kind path refusal) := by
  have hopened : Database.new {} openOnly = .ok desk := rfl
  have hdistinct : Claims.ToldApart
      (callers (twoOpen ++ [.execute ⟨5, fun _ => ⟨9⟩⟩ "u" clerk closeBoth])) := by
    intro a ha b hb _
    have hcallers : callers (twoOpen ++ [.execute ⟨5, fun _ => ⟨9⟩⟩ "u" clerk closeBoth]) =
      [Guard.ada] := rfl
    rw [hcallers, List.mem_singleton] at ha hb
    rw [ha, hb]
  obtain ⟨receipt, hok⟩ : ∃ receipt,
      ((desk.run twoOpen).execute ⟨5, fun _ => ⟨9⟩⟩ "u" clerk closeBoth).1 =
        .ok (.committed receipt) := ⟨_, rfl⟩
  have hrequests : Separately clerk [filing, closing firstOrder] fileAndCloseFirst :=
    .cons _ _ (.cons _ _ .nil)
  have hasked : ((desk.run twoOpen).rulingOn clerk (closing secondOrder)).asked =
      ["locks/orders"] := by decide +kernel
  have hseen : SeenAlike clerk (closing secondOrder) (desk.run twoOpen)
      ((desk.run twoOpen).run fileAndCloseFirst) := by
    refine hrequests.seenAlike_run (by decide +kernel) ?_
    rw [hasked]
    intro raw hraw
    obtain rfl := List.mem_singleton.1 hraw
    decide +kernel
  have hparts := @commit_is_granted_in_parts clerk {} openOnly desk hopened twoOpen
    ⟨5, fun _ => ⟨9⟩⟩ "u" (some "t") [] [filing, closing firstOrder, closing secondOrder]
    (.committed receipt) hdistinct hok
  have hlater := hparts.2 [filing, closing firstOrder] (closing secondOrder) [] _ rfl hrequests
    hseen
  exact ⟨hopened, hdistinct, ⟨receipt, hok⟩, hrequests, hasked, hseen, hlater⟩

/-- An order is closed and gets a note in one commit. -/
def closeAndNote : Operation := .commit (some "t") [] [closing firstOrder, noting firstOrder]

/--
An open order may be closed and noted in one commit, although a note may not be
put to it once it is closed.
-/
theorem closeAndNote_is_not_granted_in_parts :
    Database.new {} openOnly = .ok desk ∧
    (desk.run twoOpen).store.reply? "acme" "t" 5 = none ∧
    (∃ receipt, ((desk.run twoOpen).execute ⟨5, fun _ => ⟨9⟩⟩ "u" clerk closeAndNote).1 =
      .ok (.committed receipt)) ∧
    (((desk.run twoOpen).run closeFirst).execute ⟨6, fun _ => ⟨10⟩⟩ "w" clerk
      (noting firstOrder).request).1 =
      .error (.denied .update "orders/1" (.byRules "no rule allows update on this path")) :=
  ⟨rfl, by decide +kernel, ⟨_, rfl⟩, rfl⟩

end Database
end DocumentStore
