import DocumentStore.Proofs.Store.Receipts

/-!
# Calls under a key happen once

Every key in the log is known, as long as no reply is dropped: a write under a
key is only carried out when the key is unknown, and then its reply is
recorded.  So no key of a tenant is logged twice, be it one that a client chose
or one that was derived for a write of a transaction.  Once a call has succeeded
under a key, later calls under it repeat its answer or are refused.
-/

namespace DocumentStore
namespace Store

variable {s : Store} {moment : Moment}

/-! ### Keys in the log -/

/-- The keys in the log, each with its tenant. -/
def loggedKeys (s : Store) : List (String × String) :=
  s.log.entries.filterMap fun e => e.origin.key.map (e.tenant, ·)

/-- Every logged key is known, and none is logged twice. -/
structure KeysOnce (s : Store) : Prop where
  known : ∀ key ∈ s.loggedKeys, ∃ reply, s.known? key = some reply
  nodup : s.loggedKeys.Nodup

/-- Unless replies were dropped, every logged key is known and none is logged twice. -/
def Once (s : Store) : Prop :=
  s.dropped = 0 → s.KeysOnce

theorem loggedKeys_congr
    {s' : Store}
    (h : s'.log = s.log) :
    s'.loggedKeys = s.loggedKeys := by
  unfold loggedKeys
  rw [h]

theorem Once.of_remembers
    {s' : Store}
    (h : s.Once)
    (hremembers : Remembers s s')
    (hkeys : s'.loggedKeys = s.loggedKeys) :
    s'.Once := by
  intro hzero
  have hbefore := hremembers.dropped_eq_zero hzero
  obtain ⟨hknown, hnodup⟩ := h hbefore
  refine ⟨?_, by rw [hkeys]; exact hnodup⟩
  intro key hmem
  rw [hkeys] at hmem
  obtain ⟨reply, hreply⟩ := hknown key hmem
  exact ⟨reply, hremembers.keeps (by rw [hzero, hbefore]) key reply hreply⟩

theorem Once.of_looked
    {s' : Store}
    (h : s.Once)
    (hlooked : Looked s s') :
    s'.Once :=
  h.of_remembers hlooked.remembers (loggedKeys_congr hlooked.consulted.log_eq)

theorem Once.tick
    (h : s.Once)
    (clock : Option Timestamp) :
    ({ s with clock } : Store).Once :=
  h.of_remembers (.of_replies_eq rfl) rfl

/-- A write logs its key, if it has one, or nothing. -/
theorem Performed.loggedKeys_eq
    {s' : Store}
    {tenant : String}
    {write : Write}
    {origin : Origin}
    {now : Timestamp}
    {result : WriteResult}
    (h : Performed s tenant write origin now result s') :
    s'.loggedKeys = s.loggedKeys ∨
      s'.loggedKeys = s.loggedKeys ++ (origin.key.map (tenant, ·)).toList := by
  cases h with
  | @changed change documents happlied =>
      right
      have htenant := (LogEntry.tells_entryOf happlied (s.log.entries.length + 1) origin).tenant
      have hentry : [ChangeLog.entryOf (s.log.entries.length + 1) change origin now].filterMap
          (fun e => e.origin.key.map (e.tenant, ·)) = (origin.key.map (tenant, ·)).toList := by
        rw [List.filterMap_cons, htenant, List.filterMap_nil]
        cases hkey : origin.key with
        | none =>
            simp [ChangeLog.entryOf, hkey]
        | some k =>
            simp [ChangeLog.entryOf, hkey]
      rw [← hentry]
      exact List.filterMap_append
  | absent hkind hnone =>
      exact .inl rfl

/-- A write under an unknown key that is recorded leaves every key logged once. -/
theorem Once.record
    {s' : Store}
    {tenant actor key : String}
    {transaction : Option String}
    {write : Write}
    {now : Timestamp}
    {result : WriteResult}
    (h : s.Once)
    (hunknown : s.known? (tenant, key) = none)
    (hperformed : Performed s tenant write ⟨actor, some key, transaction⟩ now result s')
    (reply : Reply)
    (instant : Nat) :
    (s'.record tenant key reply instant).Once := by
  intro hzero
  have hremembers := hperformed.remembers_record hunknown reply instant
  have hbefore := hremembers.dropped_eq_zero hzero
  obtain ⟨hknown, hnodup⟩ := h hbefore
  have hold : ∀ k ∈ s.loggedKeys, ∃ r, (s'.record tenant key reply instant).known? k = some r := by
    intro k hmem
    obtain ⟨r, hr⟩ := hknown k hmem
    exact ⟨r, hremembers.keeps (by rw [hzero, hbefore]) k r hr⟩
  have hnew : (tenant, key) ∉ s.loggedKeys := by
    intro hmem
    obtain ⟨r, hr⟩ := hknown _ hmem
    rw [hunknown] at hr
    cases hr
  have hkeys : (s'.record tenant key reply instant).loggedKeys = s'.loggedKeys := rfl
  rcases hperformed.loggedKeys_eq with hsame | hlogged
  · rw [← hkeys] at hsame
    exact ⟨by rw [hsame]; exact hold, by rw [hsame]; exact hnodup⟩
  · rw [← hkeys] at hlogged
    constructor
    · rw [hlogged]
      intro k hmem
      rcases List.mem_append.1 hmem with hmem | hmem
      · exact hold k hmem
      · obtain rfl := List.mem_singleton.1 hmem
        exact ⟨reply, known?_record_self _ _ _ _ _⟩
    · rw [hlogged]
      refine List.nodup_append.2 ⟨hnodup, by simp, ?_⟩
      rintro k hmem k' hmem' rfl
      obtain rfl := List.mem_singleton.1 hmem'
      exact hnew hmem

/-! ### Calls -/

theorem Once.of_writtenNow_none
    {s' : Store}
    {tenant actor : String}
    {write : Write}
    {answer : Except StoreError WriteResult}
    (h : s.Once)
    (hrun : WrittenNow s tenant actor write none answer s') :
    s'.Once := by
  refine h.of_remembers (.of_replies_eq hrun.replies_eq) ?_
  cases hrun with
  | failed e clock =>
      rfl
  | performed hperformed =>
      rcases hperformed.loggedKeys_eq with hsame | hlogged
      · exact hsame
      · exact hlogged.trans (List.append_nil _)
  | absent hkind hnone =>
      rfl

/-- A write under an unknown key that succeeds and is recorded leaves every key logged once. -/
theorem Once.record_of_writtenNow
    {s' : Store}
    {tenant actor key : String}
    {write : Write}
    {result : WriteResult}
    (h : s.Once)
    (hunknown : s.known? (tenant, key) = none)
    (hrun : WrittenNow s tenant actor write (some key) (.ok result) s')
    (reply : Reply)
    (instant : Nat) :
    (s'.record tenant key reply instant).Once := by
  cases hrun with
  | @performed clock now _ _ hperformed =>
      exact (h.tick clock).record hunknown hperformed reply instant
  | absent hkind hnone =>
      exact h.of_remembers (remembers_record hunknown reply instant) rfl

/-- A single write leaves every key logged once. -/
theorem Once.write
    (h : s.Once)
    (moment : Moment)
    (tenant actor : String)
    (write : Write)
    (key : Option String) :
    (s.write moment tenant actor write key).2.Once := by
  cases key with
  | none =>
      exact h.of_writtenNow_none (s.writtenNow_writeNow moment tenant actor write none)
  | some k =>
      have hunknown := @known?_lookupReply_of_eq_none s tenant k moment.instant
      have hlookup := h.of_looked (s.looked_lookupReply tenant k moment.instant)
      have hwritten := s.written_write moment tenant actor write k
      generalize s.write moment tenant actor write (some k) = response at hwritten ⊢
      obtain ⟨answer, final⟩ := response
      cases hwritten with
      | answered heq =>
          rw [heq] at hlookup
          exact hlookup
      | refused heq hkind =>
          rw [heq] at hlookup
          exact hlookup
      | failed heq hrun =>
          rw [heq] at hlookup
          cases hrun with
          | failed e clock =>
              exact hlookup.tick clock
      | carriedOut heq hrun =>
          rw [heq] at hlookup hunknown
          exact hlookup.record_of_writtenNow (hunknown rfl) hrun _ _

/-- A commit leaves every key logged once. -/
theorem Once.commit
    (h : s.Once)
    (moment : Moment)
    (tx : Transaction)
    (actor : String) :
    (s.commit moment tx actor).2.Once := by
  have hlookup := h.of_looked (s.looked_lookupReply tx.tenant tx.id moment.instant)
  have hconcluded := s.concluded_commit moment tx actor
  generalize s.commit moment tx actor = response at hconcluded ⊢
  cases hconcluded with
  | looked hlooked =>
      exact hlookup.of_looked hlooked
  | @carriedOut priors s' after results hprepared hrun =>
      -- each write is recorded under its own key, and the receipt logs nothing
      have hwrites := performAll_preserves (motive := Once) tx moment actor
        (fun _ now ht => ht.tick (some now)) (tx.writes.zip priors) 0 s'
        (fun t t' position write now result _ _ ht hunknown hperformed =>
          ht.record hunknown hperformed _ _)
        hprepared.members (hlookup.of_looked hprepared.looked)
      rw [hrun] at hwrites
      exact Once.of_remembers (s := after) hwrites
        (Store.remembers_record (hprepared.known?_id hrun) _ _) rfl

/-- A call leaves every key logged once. -/
theorem Once.serve
    (h : s.Once)
    (moment : Moment)
    (call : Call) :
    (s.serve moment call).2.Once := by
  have hserved := s.served_serve moment call
  generalize s.serve moment call = response at hserved ⊢
  cases hserved with
  | pathless hpath e =>
      exact h
  | write hwrites =>
      exact h.write moment _ _ _ _
  | commit tx actor =>
      exact h.commit moment tx actor
  | sweep =>
      exact h.of_remembers (s.remembers_sweep moment.instant) rfl

/-- Calls leave every key logged once. -/
theorem Once.afterCalls
    (h : s.Once)
    (calls : List (Moment × Call)) :
    (s.afterCalls calls).Once := by
  induction calls generalizing s with
  | nil =>
      exact h
  | cons call rest ih =>
      exact ih (h.serve call.1 call.2)

/-! ### Keys that calls take -/

/-- A commit derives a key for each of its writes. -/
inductive Call.Derives : Call → String × String → Prop
  | commit
      {tx : Transaction}
      {i : Nat}
      (actor : String)
      (hi : i < tx.writes.length) :
      Derives (.commit tx actor) (tx.tenant, tx.derivedKey i)

/-- A call that succeeds takes its key, and a commit takes one for each result as well. -/
inductive Call.Takes : Call → Answer → String × String → ReplyKind → Prop
  | own
      {call : Call}
      {answer : Answer}
      {key : String × String}
      {kind : ReplyKind}
      (hkey : call.key? = some key)
      (hkind : call.kind? = some kind) :
      Takes call answer key kind
  | derived
      {tx : Transaction}
      {receipt : Receipt}
      {i : Nat}
      (actor : String)
      (hi : i < receipt.results.length) :
      Takes (.commit tx actor) (.receipt receipt) (tx.tenant, tx.derivedKey i) .transactionOperation

/-- What a call gets for a key that was taken for a kind of reply with an answer. -/
def Call.repetition
    (call : Call)
    (answer : Answer)
    (key : String × String)
    (kind : ReplyKind) :
    Except StoreError Answer :=
  if call.kind? = some kind then .ok answer else .error (.keyReused key.2 kind)

/--
A call that asks for a taken key repeats: under its own key it gets the answer
if it is of the same kind and is refused otherwise, under a derived key it is
refused or gets its recorded receipt, and nothing but replies is consulted.
-/
structure Repeats
    (s : Store)
    (moment : Moment)
    (answer : Answer)
    (key : String × String)
    (kind : ReplyKind)
    (call : Call) :
    Prop where
  own :
    call.key? = some key →
      (s.serve moment call).1 = call.repetition answer key kind ∧
      Consulted s (s.serve moment call).2
  derived :
    call.Derives key →
      ((∃ other kind', (s.serve moment call).1 = .error (.keyReused other kind')) ∨
        ∃ id receipt, call.key? = some id ∧ s.known? id = some (.committed receipt) ∧
          (s.serve moment call).1 = .ok (.receipt receipt)) ∧
      Consulted s (s.serve moment call).2

theorem Call.kind?_ne_transactionOperation (call : Call) :
    call.kind? ≠ some .transactionOperation := by
  cases call <;> simp [Call.kind?]

/-- A key that a call has taken is known, with a reply that repeats its answer. -/
theorem exists_known?_of_takes
    {call : Call}
    {answer : Answer}
    {key : String × String}
    {kind : ReplyKind}
    (hpaired : (s.serve moment call).2.Paired)
    (hok : (s.serve moment call).1 = .ok answer)
    (htakes : call.Takes answer key kind) :
    ∃ reply, (s.serve moment call).2.known? key = some reply ∧
      ∀ retry : Call, reply.given retry.kind? key.2 = retry.repetition answer key kind := by
  cases htakes with
  | own hkey hkind =>
      obtain ⟨reply, hknown, hreply, rfl⟩ := exists_known?_of_serve hok hkey
      rw [hkind] at hreply
      obtain rfl := Option.some.inj hreply
      exact ⟨reply, hknown, fun retry => rfl⟩
  | @derived tx receipt i actor hi =>
      obtain ⟨reply, hknown, hreply, hanswer⟩ := exists_known?_of_serve hok rfl
      have hcommitted : reply = .committed receipt := by
        cases reply with
        | single kind result =>
            cases hanswer
        | member result =>
            cases hanswer
        | committed receipt' =>
            cases hanswer
            rfl
      rw [hcommitted] at hknown
      have hresult := List.getElem?_eq_getElem hi
      refine ⟨_, hpaired.member_of_receipt tx receipt i _ hknown hresult, fun retry => ?_⟩
      have hkind := retry.kind?_ne_transactionOperation
      unfold Reply.given Call.repetition
      rw [if_neg hkind, if_neg]
      · rfl
      · exact hkind

/-- A call that asks for a known key repeats, unless replies are dropped. -/
theorem repeats_of_known?
    {answer : Answer}
    {key : String × String}
    {kind : ReplyKind}
    {reply : Reply}
    {call : Call}
    (hpaired : s.Paired)
    (hknown : s.known? key = some reply)
    (hgiven : reply.given call.kind? key.2 = call.repetition answer key kind)
    (hpath : call.HasPath)
    (hkept : (s.serve moment call).2.dropped = s.dropped) :
    s.Repeats moment answer key kind call where
  own := by
    intro hkey
    rw [← hgiven]
    exact serve_of_known? hknown hkey hpath (Nat.le_of_eq hkept)
  derived := by
    rintro (@⟨tx, i, actor, hi⟩)
    rw [serve] at hkept ⊢
    obtain ⟨hanswer, hconsulted⟩ := commit_of_known?_derivedKey hpaired hkept hi hknown
    refine ⟨?_, hconsulted⟩
    rcases hanswer with ⟨other, kind', herror⟩ | ⟨receipt, hreceipt, hok⟩
    · exact .inl ⟨other, kind', by rw [answering, herror]; rfl⟩
    · exact .inr ⟨_, receipt, rfl, hreceipt, by rw [answering, hok]; rfl⟩

/-! ### Runs from a store without replies -/

/-- Nothing was logged and no reply is recorded. -/
structure Fresh (s : Store) : Prop where
  log : s.log.entries = []
  replies : s.replies.entries = []

theorem fresh_new
    (limit capacity lifetime : Nat)
    (tenantField : String) :
    (Store.new limit capacity lifetime tenantField).Fresh :=
  ⟨rfl, rfl⟩

theorem Fresh.createIndex
    (h : s.Fresh)
    (definition : IndexDefinition) :
    (s.createIndex definition).2.Fresh := by
  obtain ⟨catalog, hcatalog⟩ := s.createIndex_with_catalog definition
  rw [hcatalog]
  exact ⟨h.log, h.replies⟩

theorem Fresh.known?_eq_none
    (h : s.Fresh)
    (key : String × String) :
    s.known? key = none := by
  unfold known? Cache.value? Cache.entryAt?
  rw [h.replies]
  rfl

theorem Fresh.once (h : s.Fresh) : s.Once := by
  intro _
  have hkeys : s.loggedKeys = [] := by
    unfold loggedKeys
    rw [h.log]
    rfl
  refine ⟨?_, by rw [hkeys]; exact .nil⟩
  intro key hmem
  rw [hkeys] at hmem
  cases hmem

theorem Fresh.paired (h : s.Fresh) : s.Paired where
  receipt_of_member := by
    intro tx i result hknown
    rw [h.known?_eq_none] at hknown
    cases hknown
  member_of_receipt := by
    intro tx receipt i result hknown
    rw [h.known?_eq_none] at hknown
    cases hknown

theorem afterCalls_append_cons
    (s : Store)
    (earlier later : List (Moment × Call))
    (moment : Moment)
    (call : Call) :
    s.afterCalls (earlier ++ (moment, call) :: later) =
      ((s.afterCalls earlier).serve moment call).2.afterCalls later :=
  List.foldl_append

/--
As long as no reply expires or makes room for another, keyed calls happen once.
No key of a tenant is logged twice; a call that fails is not remembered; and
once a call has succeeded, every later call that asks for a key that it took,
whatever else it asks for, repeats its answer or is refused, and leaves the
documents, the log and the indexes as they are.
-/
theorem keyed_calls_happen_once
    (hfresh : s.Fresh)
    {calls : List (Moment × Call)}
    (hkept : (s.afterCalls calls).dropped = 0) :
    (s.afterCalls calls).loggedKeys.Nodup ∧
    (∀ earlier moment call later e, calls = earlier ++ (moment, call) :: later →
      ((s.afterCalls earlier).serve moment call).1 = .error e →
      ∀ entry ∈ ((s.afterCalls earlier).serve moment call).2.replies.entries,
        entry ∈ (s.afterCalls earlier).replies.entries) ∧
    ∀ earlier moment call between moment' retry later answer key kind,
      calls = earlier ++ (moment, call) :: (between ++ (moment', retry) :: later) →
      ((s.afterCalls earlier).serve moment call).1 = .ok answer →
      call.Takes answer key kind →
      retry.HasPath →
      (s.afterCalls (earlier ++ (moment, call) :: between)).Repeats moment' answer key kind
        retry := by
  refine ⟨(hfresh.once.afterCalls calls hkept).nodup, ?_, ?_⟩
  · intro earlier moment call later e _ herror
    exact replies_of_serve_eq_error herror
  · rintro earlier moment call between moment' retry later answer key kind rfl hok htakes hpath
    rw [afterCalls_append_cons, afterCalls_append_cons] at hkept
    rw [afterCalls_append_cons]
    -- nothing was dropped at any point of the run
    have hlast := remembers_afterCalls _ later |>.dropped_eq_zero hkept
    have hbetween := remembers_serve _ moment' retry |>.dropped_eq_zero hlast
    have hfirst := remembers_afterCalls _ between |>.dropped_eq_zero hbetween
    have hearlier := remembers_serve _ moment call |>.dropped_eq_zero hfirst
    have hstart := s.remembers_afterCalls earlier |>.dropped_eq_zero hearlier
    have hpaired := (hfresh.paired.afterCalls earlier (hearlier.trans hstart.symm)).serve
      (hfirst.trans hearlier.symm)
    obtain ⟨reply, hknown, hgiven⟩ := exists_known?_of_takes hpaired hok htakes
    have hremembers := remembers_afterCalls ((s.afterCalls earlier).serve moment call).2 between
    refine repeats_of_known? ?_ (hremembers.keeps ?_ _ _ hknown) (hgiven retry) hpath ?_
    · exact hpaired.afterCalls between (hbetween.trans hfirst.symm)
    · exact hbetween.trans hfirst.symm
    · exact hlast.trans hbetween.symm

/-- A store with an index of the orders. -/
def ordersByTotal : Store :=
  ((Store.new 500 100 600000 "tenantId").createIndex
    ⟨"by_total", "orders", [⟨"total", .asc⟩]⟩).2

/-- The path `orders/O2`. -/
def otherOrderPath : DocumentPath := ⟨"orders/O2", by decide +kernel⟩

/-- An order is created in a transaction. -/
def otherOrder : Transaction where
  id := "t"
  tenant := "T1"
  writes := [.create otherOrderPath (.object [("total", .ofNat 4)])]
  reads := []
  limit := 500

/-- The order `orders/O1` is created under a key. -/
def keyedCreation : Call :=
  .create "T1" "ann" "orders/O1" (.object [("total", .ofNat 3)]) (some "k")

/-- The order `orders/O2` is created under the same key. -/
def creationAgain : Call :=
  .create "T1" "bob" "orders/O2" (.object [("total", .ofNat 4)]) (some "k")

/-- The order is deleted under the key derived for its creation. -/
def deletionAgain : Call :=
  .delete "T1" "bob" "orders/O1" none (some "t#0")

/-- A key is used twice, and so is one that was derived. -/
def keyedCalls : List (Moment × Call) :=
  [(⟨0, fun _ => ⟨7⟩⟩, keyedCreation),
   (⟨1, fun _ => ⟨8⟩⟩, creationAgain),
   (⟨2, fun _ => ⟨9⟩⟩, .commit otherOrder "ann"),
   (⟨3, fun _ => ⟨9⟩⟩, deletionAgain)]

/-- The order is created once under its key, and the derived key is refused. -/
theorem order_is_created_once :
    ordersByTotal.Fresh ∧
    (ordersByTotal.afterCalls keyedCalls).dropped = 0 ∧
    (ordersByTotal.afterCalls keyedCalls).loggedKeys.Nodup ∧
    (∃ answer,
      (ordersByTotal.serve ⟨0, fun _ => ⟨7⟩⟩ keyedCreation).1 = .ok answer ∧
      ((ordersByTotal.afterCalls (keyedCalls.take 1)).serve ⟨1, fun _ => ⟨8⟩⟩ creationAgain).1 =
        .ok answer) ∧
    ((ordersByTotal.afterCalls (keyedCalls.take 3)).serve ⟨3, fun _ => ⟨9⟩⟩ deletionAgain).1 =
      .error (.keyReused "t#0" .transactionOperation) := by
  have hfresh : ordersByTotal.Fresh := (fresh_new _ _ _ _).createIndex _
  have hkept : (ordersByTotal.afterCalls keyedCalls).dropped = 0 := by decide +kernel
  obtain ⟨hnodup, -, hrepeats⟩ := keyed_calls_happen_once hfresh hkept
  refine ⟨hfresh, hkept, hnodup, ?_, ?_⟩
  · obtain ⟨answer, hok⟩ :
        ∃ answer, (ordersByTotal.serve ⟨0, fun _ => ⟨7⟩⟩ keyedCreation).1 = .ok answer :=
      ⟨_, rfl⟩
    have hpath : creationAgain.HasPath := ⟨otherOrderPath, rfl⟩
    have hagain := hrepeats [] _ keyedCreation [] _ creationAgain _ answer ("T1", "k") .create rfl
      hok (.own rfl rfl) hpath
    exact ⟨answer, hok, (hagain.own rfl).1⟩
  · obtain ⟨receipt, hok, hlength⟩ :
        ∃ receipt, ((ordersByTotal.afterCalls (keyedCalls.take 2)).serve ⟨2, fun _ => ⟨9⟩⟩
          (.commit otherOrder "ann")).1 = .ok (.receipt receipt) ∧ receipt.results.length = 1 :=
      ⟨_, rfl, rfl⟩
    have htakes : (Call.commit otherOrder "ann").Takes (.receipt receipt)
        ("T1", "t#0") .transactionOperation := by
      have hderived : otherOrder.derivedKey 0 = "t#0" := by decide +kernel
      rw [← hderived]
      exact .derived "ann" (by omega)
    have hpath : deletionAgain.HasPath := ⟨orderPath, rfl⟩
    have hagain := hrepeats (keyedCalls.take 2) _ (.commit otherOrder "ann") [] _ deletionAgain _
      (.receipt receipt) _ _ rfl hok htakes hpath
    exact (hagain.own rfl).1

end Store
end DocumentStore
