import DocumentStore.Proofs.Gateway.Responses
import DocumentStore.Proofs.Store.Lasting
import DocumentStore.Proofs.Store.Replay

/-!
# Requests that come back

A request that brings a key and succeeds leaves a reply under the key.  As long
as the reply is there, the same request is never carried out again.  Its
accesses are judged anew, though, before the store is asked, and on the
documents as they have become.  So it is answered as it was the first time, or
the rules deny it; either way nothing but replies is looked up.
-/

namespace DocumentStore

/-- The tenant and the key under which an operation is answered again, if it brings a key. -/
def Operation.key? (tenant : String) : Operation → Option (String × String)
  | .create _ _ key => key.map (tenant, ·)
  | .update _ _ _ _ key => key.map (tenant, ·)
  | .delete _ _ key => key.map (tenant, ·)
  | .commit transaction _ _ => transaction.map (tenant, ·)
  | _ => none

namespace Database

variable {db : Database} {action : Action} {requester : Requester} {operation : Operation}
  {key : String × String} {reply : Reply}

/-! ### The limit on the writes of a transaction -/

/-- Calls do not change how many writes a transaction may have. -/
theorem transactionLimit_serve
    (s : Store)
    (moment : Moment)
    (call : Store.Call) :
    (s.serve moment call).2.transactionLimit = s.transactionLimit := by
  refine (s.moves_serve moment call).preserves
    (P := fun t => t.transactionLimit = s.transactionLimit) ?_ rfl
  intro t t' hmove ht
  cases hmove <;> exact ht

/-- An action does not change how many writes a transaction may have. -/
theorem transactionLimit_after
    (db : Database)
    (action : Action) :
    (db.after action).store.transactionLimit = db.store.transactionLimit := by
  have heffect := db.effect_after action
  generalize (db.after action).store = s at heffect ⊢
  cases heffect with
  | nothing =>
      rfl
  | serves moment call hinstant =>
      exact transactionLimit_serve db.store moment call
  | createIndex definition =>
      obtain ⟨catalog, hcatalog, -⟩ := db.store.exists_catalog_of_createIndex definition
      rw [hcatalog]
  | dropIndex name =>
      obtain ⟨catalog, hcatalog, -⟩ := db.store.exists_catalog_of_dropIndex name
      rw [hcatalog]

/-- How many writes a transaction may have stays as it is. -/
theorem transactionLimit_run
    (db : Database)
    (actions : List Action) :
    (db.run actions).store.transactionLimit = db.store.transactionLimit := by
  induction actions generalizing db with
  | nil =>
      rfl
  | cons action rest ih =>
      exact (ih (db.after action)).trans (db.transactionLimit_after action)

/-! ### Replies that last -/

/--
The reply of a key is there, neither expired nor displaced, whenever one of some
actions looks at the clock, and at an instant after them.
-/
def Lasts
    (key : String × String)
    (instant : Nat) :
    Database → List Action → Prop
  | db, [] => db.store.reply? key.1 key.2 instant ≠ none
  | db, action :: rest =>
      (∀ i ∈ action.instant?, db.store.reply? key.1 key.2 i ≠ none) ∧
        Lasts key instant (db.after action) rest

instance decidableLasts
    (key : String × String)
    (instant : Nat) :
    ∀ (db : Database) (actions : List Action), Decidable (Lasts key instant db actions)
  | db, [] =>
      inferInstanceAs (Decidable (db.store.reply? key.1 key.2 instant ≠ none))
  | db, action :: rest =>
      have := decidableLasts key instant (db.after action) rest
      inferInstanceAs (Decidable ((∀ i ∈ action.instant?, db.store.reply? key.1 key.2 i ≠ none) ∧
        Lasts key instant (db.after action) rest))

/-- While the only reply of a key lasts, an action leaves it the only one. -/
theorem onlyReply_after
    (h : db.store.OnlyReply key reply)
    (hlive : ∀ i ∈ action.instant?, db.store.reply? key.1 key.2 i ≠ none) :
    (db.after action).store.OnlyReply key reply := by
  have heffect := db.effect_after action
  generalize (db.after action).store = s at heffect ⊢
  cases heffect with
  | nothing =>
      exact h
  | serves moment call hinstant =>
      exact Store.onlyReply_serve (h.reply?_eq (hlive moment.instant hinstant)) call
  | createIndex definition =>
      obtain ⟨catalog, hcatalog, -⟩ := db.store.exists_catalog_of_createIndex definition
      rw [hcatalog]
      exact h
  | dropIndex name =>
      obtain ⟨catalog, hcatalog, -⟩ := db.store.exists_catalog_of_dropIndex name
      rw [hcatalog]
      exact h

theorem reply?_of_lasts
    {instant : Nat}
    {actions : List Action}
    (h : db.store.OnlyReply key reply)
    (hlasts : Lasts key instant db actions) :
    (db.run actions).store.reply? key.1 key.2 instant = some reply := by
  induction actions generalizing db with
  | nil =>
      exact h.reply?_eq hlasts
  | cons action rest ih =>
      exact ih (onlyReply_after h hlasts.1) hlasts.2

/-! ### Calls under keys -/

/-- An operation that brings a key makes the same call under it whatever fresh name is at hand. -/
theorem exists_call_of_key?
    (h : operation.key? requester.tenant = some key)
    (limit : Nat) :
    ∃ call, call.key? = some key ∧
      ∀ freshId, callOf? requester freshId limit operation = some call := by
  cases operation with
  | create raw data replyKey =>
      exact ⟨.create requester.tenant requester.actor raw data replyKey, h, fun _ => rfl⟩
  | update raw data ifVersion merge replyKey =>
      exact ⟨.update requester.tenant requester.actor raw data ifVersion merge replyKey, h,
        fun _ => rfl⟩
  | delete raw ifVersion replyKey =>
      exact ⟨.delete requester.tenant requester.actor raw ifVersion replyKey, h, fun _ => rfl⟩
  | commit transaction reads writes =>
      obtain ⟨id, rfl, rfl⟩ := Option.map_eq_some_iff.1 h
      refine ⟨.commit (.declared requester.tenant id limit reads writes) requester.actor, ?_,
        fun _ => rfl⟩
      rw [Store.Call.key?, Transaction.tenant_declared, Transaction.id_declared]
  | _ =>
      cases h

/-- An operation that can be carried out makes a call with a path, if it names one. -/
theorem hasPath_of_fits
    {freshId : String}
    {limit limit' : Nat}
    {call : Store.Call}
    (hfits : operation.Fits limit)
    (hcall : callOf? requester freshId limit' operation = some call) :
    call.HasPath := by
  cases operation with
  | commit transaction reads writes =>
      obtain rfl := Option.some.inj hcall
      trivial
  | create raw data replyKey =>
      obtain rfl := Option.some.inj hcall
      exact hfits
  | update raw data ifVersion merge replyKey =>
      obtain rfl := Option.some.inj hcall
      exact hfits
  | delete raw ifVersion replyKey =>
      obtain rfl := Option.some.inj hcall
      exact hfits
  | _ =>
      cases hcall

theorem exists_answer_of_carryOut
    {moment : Moment}
    {freshId : String}
    {outcome : Outcome}
    {call : Store.Call}
    (hcall : callOf? requester freshId db.store.transactionLimit operation = some call)
    (hok : (db.carryOut moment freshId requester operation).1 = .ok outcome) :
    ∃ answer, (db.store.serve moment call).1 = .ok answer := by
  have hcarried := db.carried_carryOut moment freshId requester operation
  rw [hcall] at hcarried
  generalize db.carryOut moment freshId requester operation = response at hcarried hok
  cases hcarried with
  | @calls α f answer served _ hserve =>
      obtain ⟨a, ha, -⟩ := exists_of_onStore_eq_ok hok
      refine ⟨answer a, ?_⟩
      rw [hserve, Store.answering, ha]
      rfl

/-- What an operation does to the store, its call does. -/
theorem store_carryOut_of_call
    {moment : Moment}
    {freshId : String}
    {call : Store.Call}
    (hcall : callOf? requester freshId db.store.transactionLimit operation = some call) :
    (db.carryOut moment freshId requester operation).2.store = (db.store.serve moment call).2 := by
  have hcarried := db.carried_carryOut moment freshId requester operation
  rw [hcall] at hcarried
  generalize db.carryOut moment freshId requester operation = response at hcarried ⊢
  cases hcarried with
  | calls hserve =>
      rw [store_onStore, hserve, Store.snd_answering]

/-- Requests on the store that return the same are answered alike. -/
theorem onStore_congr
    {α : Type}
    {f : α → Outcome}
    {g : α → Store.Answer}
    (hg : Function.Injective g)
    (db db' : Database)
    {a b : Except StoreError α × Store}
    (h : (Store.answering g a).1 = (Store.answering g b).1) :
    (db.onStore f a).1 = (db'.onStore f b).1 := by
  obtain ⟨result, s⟩ := a
  obtain ⟨result', s'⟩ := b
  cases result with
  | error e =>
      cases result' with
      | error e' =>
          cases h
          rfl
      | ok b =>
          cases h
  | ok a =>
      cases result' with
      | error e' =>
          cases h
      | ok b =>
          obtain rfl := hg (Except.ok.inj h)
          rfl

/-- An operation that makes the same call with the same answer is answered alike. -/
theorem carryOut_congr
    {db' : Database}
    {moment moment' : Moment}
    {freshId freshId' : String}
    {call : Store.Call}
    (hcall : callOf? requester freshId db.store.transactionLimit operation = some call)
    (hcall' : callOf? requester freshId' db'.store.transactionLimit operation = some call)
    (hsame : (db'.store.serve moment' call).1 = (db.store.serve moment call).1) :
    (db'.carryOut moment' freshId' requester operation).1 =
      (db.carryOut moment freshId requester operation).1 := by
  have hresult : Function.Injective Store.Answer.result := fun _ _ => Store.Answer.result.inj
  have hreceipt : Function.Injective Store.Answer.receipt := fun _ _ => Store.Answer.receipt.inj
  cases operation with
  | create raw data key =>
      obtain rfl := Option.some.inj hcall
      rw [Store.serve, Store.serve] at hsame
      rw [carryOut, carryOut]
      exact onStore_congr hresult db' db hsame
  | update raw data ifVersion merge key =>
      obtain rfl := Option.some.inj hcall
      rw [Store.serve, Store.serve] at hsame
      rw [carryOut, carryOut]
      exact onStore_congr hresult db' db hsame
  | delete raw ifVersion key =>
      obtain rfl := Option.some.inj hcall
      rw [Store.serve, Store.serve] at hsame
      rw [carryOut, carryOut]
      exact onStore_congr hresult db' db hsame
  | commit transaction reads writes =>
      obtain rfl := Option.some.inj hcall
      obtain ⟨htx, -⟩ := Store.Call.commit.inj (Option.some.inj hcall')
      rw [Store.serve, Store.serve] at hsame
      rw [carryOut, carryOut, htx]
      exact onStore_congr hreceipt db' db hsame
  | _ =>
      cases hcall

/--
An operation that succeeds under a key leaves a reply there.  Where the reply is
found, the operation is answered alike and only looks up replies.
-/
theorem exists_reply_of_carryOut
    {moment : Moment}
    {freshId : String}
    {outcome : Outcome}
    (hkey : operation.key? requester.tenant = some key)
    (hfits : operation.Fits db.store.transactionLimit)
    (hok : (db.carryOut moment freshId requester operation).1 = .ok outcome) :
    ∃ reply, (db.carryOut moment freshId requester operation).2.store.known? key = some reply ∧
      ∀ (db' : Database) (moment' : Moment) (freshId' : String),
        db'.store.transactionLimit = db.store.transactionLimit →
        db'.store.reply? key.1 key.2 moment'.instant = some reply →
        (db'.carryOut moment' freshId' requester operation).1 = .ok outcome ∧
          Store.Consulted db'.store
            (db'.carryOut moment' freshId' requester operation).2.store := by
  obtain ⟨call, hcallKey, hcall⟩ := exists_call_of_key? hkey db.store.transactionLimit
  obtain ⟨answer, hanswer⟩ := exists_answer_of_carryOut (hcall freshId) hok
  obtain ⟨reply, hknown, hkind, hreply⟩ := Store.exists_known?_of_serve hanswer hcallKey
  refine ⟨reply, ?_, ?_⟩
  · rw [store_carryOut_of_call (hcall freshId)]
    exact hknown
  · intro db' moment' freshId' hlimit hfound
    have hcall' : callOf? requester freshId' db'.store.transactionLimit operation = some call := by
      rw [hlimit]
      exact hcall freshId'
    obtain ⟨hgiven, hconsulted⟩ := Store.serve_of_reply? hfound hcallKey
      (hasPath_of_fits hfits (hcall freshId))
    have hsame : (db'.store.serve moment' call).1 = (db.store.serve moment call).1 := by
      rw [hgiven, hanswer, Reply.given, if_pos hkind, hreply]
    rw [carryOut_congr (hcall freshId) hcall' hsame, store_carryOut_of_call hcall']
    exact ⟨hok, hconsulted⟩

/-! ### Retries -/

/--
The rules deny a requester one of the accesses that an operation needs, with the
documents as they stand.
-/
def DeniedByRules
    (db : Database)
    (instant : Nat)
    (requester : Requester)
    (operation : Operation)
    (e : RequestError) :
    Prop :=
  requester.service = false ∧
    ∃ access ∈ operation.accesses db.store requester.tenant, ∃ judged reason,
      Asked requester db judged ∧
        (judged.guard.evaluate instant access.kind access.path
          (db.accessContext requester access.resource access.payload)).1.decision =
            .deny reason ∧
        e = .denied access.kind access.path (.byRules reason.message)

/-- An access that is denied for an operation on paths of the tenant is denied by the rules. -/
theorem Denied.byRules
    {db' : Database}
    {instant : Nat}
    {e : RequestError}
    (h : Denied instant requester (operation.accesses db.store requester.tenant) db e db')
    (hinside : ∀ path ∈ operation.paths requester.tenant, foreign? requester path = none) :
    DeniedByRules db instant requester operation e := by
  cases h with
  | @intro access judged _ _ hmem hasked hauthorize =>
      have hpath : access.path ∈ operation.paths requester.tenant := by
        rw [operation.paths_eq db.store]
        exact List.mem_map_of_mem hmem
      obtain ⟨hservice, reason, hdecision, he⟩ :=
        decision_of_authorize (hinside access.path hpath) (congrArg Prod.fst hauthorize)
      rw [accessContext_congr hasked.store_eq] at hdecision
      exact ⟨hservice, access, hmem, judged, reason, hasked, hdecision, he⟩

/--
When a request has succeeded under a key, and the same request comes back while
its reply lasts, whatever has happened in between, then all its accesses are
granted again and it is answered as before, or the rules deny it one of them.
Either way nothing but replies is looked up.
-/
theorem retry_repeats_unless_denied
    {moment : Moment}
    {freshId : String}
    {outcome : Outcome}
    {between : List Action}
    (hkey : operation.key? requester.tenant = some key)
    (hok : (db.execute moment freshId requester operation).1 = .ok outcome)
    (retryMoment : Moment)
    (retryId : String)
    (hlasts : Lasts key retryMoment.instant (db.execute moment freshId requester operation).2
      between) :
    let before := (db.execute moment freshId requester operation).2.run between
    let response := before.execute retryMoment retryId requester operation
    Store.Consulted before.store response.2.store ∧
      (((∃ granted, Granted retryMoment.instant requester
            (operation.accesses before.store requester.tenant) before granted) ∧
          response.1 = .ok outcome) ∨
        ∃ e, response.1 = .error e ∧
          DeniedByRules before retryMoment.instant requester operation e) := by
  intro before response
  have hruled := db.ruled_execute moment freshId requester operation
  have hretry : Ruled before retryMoment retryId requester operation response :=
    before.ruled_execute retryMoment retryId requester operation
  have hlimit : before.store.transactionLimit = db.store.transactionLimit :=
    db.transactionLimit_run (.execute moment freshId requester operation :: between)
  have hfound : ∀ reply, (db.execute moment freshId requester operation).2.store.known? key =
      some reply → before.store.reply? key.1 key.2 retryMoment.instant = some reply :=
    fun reply hknown => reply?_of_lasts (.of_known? hknown) hlasts
  clear_value before response
  generalize db.execute moment freshId requester operation = first at hok hruled hfound
  cases hruled with
  | declined hdeclined =>
      cases hok
  | @carriedOut granted hfits hgranted =>
      have hstore : granted.store = db.store := hgranted.asked.store_eq
      have hinside : ∀ path ∈ operation.paths requester.tenant,
          foreign? requester path = none := by
        rw [operation.paths_eq db.store]
        exact hgranted.foreign?_eq_none
      obtain ⟨reply, hknown, hrepeats⟩ :=
        exists_reply_of_carryOut hkey (by rw [hstore]; exact hfits) hok
      have hreply := hfound reply hknown
      cases hretry with
      | @declined e denied hdeclined =>
          cases hdeclined with
          | unfit hunfit hasked =>
              rw [hlimit] at hunfit
              exact absurd hfits hunfit
          | denied hdenied =>
              have hsame : denied.store = before.store := hdenied.asked.store_eq
              refine ⟨?_, .inr ⟨e, rfl, hdenied.byRules hinside⟩⟩
              rw [hsame]
              exact .refl before.store
      | @carriedOut again hfits' hgranted' =>
          have hsame : again.store = before.store := hgranted'.asked.store_eq
          obtain ⟨houtcome, hconsulted⟩ := hrepeats again retryMoment retryId
            (by rw [hsame, hlimit, hstore]) (by rw [hsame]; exact hreply)
          rw [hsame] at hconsulted
          exact ⟨hconsulted, .inl ⟨⟨again, hgranted'⟩, houtcome⟩⟩

/-- All may put in orders of their own, and cancel them. -/
def ownOrders : RuleSet :=
  let put : Rule :=
    ⟨"put", "orders/\x7bid\x7d", [.create], 0,
      .compare .eq (.var "request" ["data", "owner"]) (.var "auth" ["uid"])⟩
  let cancel : Rule :=
    ⟨"cancel", "orders/\x7bid\x7d", [.delete], 0,
      .compare .eq (.var "resource" ["data", "owner"]) (.var "auth" ["uid"])⟩
  ⟨[put, cancel],
    .node [("orders", .node [] (some ("id", .node [] none [put, cancel])) [])] none []⟩

/-- A database with the default settings and these rules. -/
def counter : Database :=
  { fresh with guard := Guard.new ownOrders {} }

/-- A caller of `acme`. -/
def customer : Requester := .signedIn "acme" Guard.ada

/-- She puts in an order. -/
def putIn : Operation := .create "orders/1" (.object [("owner", .string "ada")]) (some "p")

/-- She cancels it. -/
def cancel : Operation := .delete "orders/1" none (some "c")

/-- The answer when she puts in the order. -/
def taken : Response :=
  counter.execute ⟨0, fun _ => ⟨7⟩⟩ "u" customer putIn

/-- The order as it was put in. -/
def takenOrder : Document :=
  .new firstOrder (.object [("owner", .string "ada")]) "acme" ⟨7⟩

/-- Afterwards she cancels it, and there is a sweep. -/
def afterTaken : List Action :=
  [.execute ⟨5, fun _ => ⟨9⟩⟩ "v" customer cancel, .sweep 6]

/-- An order that is put in again is answered with the first one, even after it was cancelled. -/
theorem putIn_comes_back :
    putIn.key? "acme" = some ("acme", "p") ∧
    taken.1 = .ok (.document takenOrder) ∧
    Lasts ("acme", "p") 7 taken.2 afterTaken ∧
    Store.Consulted (taken.2.run afterTaken).store
      ((taken.2.run afterTaken).execute ⟨7, fun _ => ⟨11⟩⟩ "w" customer putIn).2.store ∧
    ((taken.2.run afterTaken).execute ⟨7, fun _ => ⟨11⟩⟩ "w" customer putIn).1 =
      .ok (.document takenOrder) ∧
    (taken.2.run afterTaken).store.find? "acme" firstOrder = none := by
  have hkey : putIn.key? "acme" = some ("acme", "p") := rfl
  have hok : taken.1 = .ok (.document takenOrder) := by decide +kernel
  have hlasts : Lasts ("acme", "p") 7 taken.2 afterTaken := by decide +kernel
  have hretry :=
    @retry_repeats_unless_denied counter customer putIn ("acme", "p") ⟨0, fun _ => ⟨7⟩⟩ "u"
      (.document takenOrder) afterTaken hkey hok ⟨7, fun _ => ⟨11⟩⟩ "w" hlasts
  refine ⟨hkey, hok, hlasts, ?_, by decide +kernel, by decide +kernel⟩
  unfold taken
  exact hretry.1

/--
A cancellation that comes back is denied although its reply is there: the order
is gone, so that it belongs to nobody.
-/
theorem cancel_comes_back_in_vain :
    Reachable taken.2 ∧
    cancel.key? "acme" = some ("acme", "c") ∧
    (taken.2.execute ⟨5, fun _ => ⟨9⟩⟩ "v" customer cancel).1 = .ok (.deleted true) ∧
    Lasts ("acme", "c") 6 (taken.2.execute ⟨5, fun _ => ⟨9⟩⟩ "v" customer cancel).2 [] ∧
    ((taken.2.execute ⟨5, fun _ => ⟨9⟩⟩ "v" customer cancel).2.execute ⟨6, fun _ => ⟨10⟩⟩ "w"
      customer cancel).1 =
      .error (.denied .delete "orders/1" (.byRules "no rule allows delete on this path")) := by
  have hopened : Database.new {} ownOrders = .ok counter := rfl
  exact ⟨(Reachable.opened hopened).step (.execute ⟨0, fun _ => ⟨7⟩⟩ "u" customer putIn), rfl,
    by decide +kernel, by decide +kernel, by decide +kernel⟩

end Database
end DocumentStore
