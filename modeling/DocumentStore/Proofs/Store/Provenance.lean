import DocumentStore.Proofs.Store.Recorded

/-!
# Where recorded results come from

A single write records its own reply.  A commit that returns a receipt records
it under its id, and the results of the writes that it carried out under the
keys derived for them.  Nothing else adds a reply.

An id may look like a derived key, and a derived key like the id of yet another
transaction.  Still a derived key tells the id and the position that it was
derived from.  So whatever a commit finds for one of its writes, in a receipt or
under the derived key, is what an earlier commit of the same transaction got
when it carried out its write at the same position.
-/

namespace DocumentStore

/-- What a commit records: its receipt under the id, the results under the derived keys. -/
inductive Receipt.Records
    (receipt : Receipt)
    (tx : Transaction) :
    String × String → Reply → Prop
  | own :
      Records receipt tx (tx.tenant, tx.id) (.committed receipt)
  | member
      {position : Nat}
      {result : WriteResult}
      (h : receipt.results[position]? = some result) :
      Records receipt tx (tx.tenant, tx.derivedKey position) (.member result)

/-- A reply under a key is where a commit finds the result of its write at a position. -/
inductive Reply.Holds
    (key id : String)
    (position : Nat)
    (result : WriteResult) :
    Reply → Prop
  | member
      (hkey : key = id ++ "#" ++ toString position) :
      Holds key id position result (.member result)
  | committed
      {receipt : Receipt}
      (hkey : key = id)
      (h : receipt.results[position]? = some result) :
      Holds key id position result (.committed receipt)

/-- What a commit records is found only for its own writes, each at its position. -/
theorem Receipt.Records.of_holds
    {receipt : Receipt}
    {tx : Transaction}
    {key : String × String}
    {reply : Reply}
    {id : String}
    {position : Nat}
    {result : WriteResult}
    (h : receipt.Records tx key reply)
    (hholds : reply.Holds key.2 id position result) :
    key.1 = tx.tenant ∧ id = tx.id ∧ receipt.results[position]? = some result := by
  cases h with
  | own =>
      cases hholds with
      | committed hkey hresult =>
          exact ⟨rfl, hkey.symm, hresult⟩
  | member hresult =>
      cases hholds with
      | member hkey =>
          obtain ⟨hid, hposition⟩ := Text.markedPosition_inj hkey
          exact ⟨rfl, hid.symm, hposition ▸ hresult⟩

namespace Store

variable {s : Store} {moment : Moment} {tx : Transaction} {actor : String}
  {e : CacheEntry (String × String) Reply}

/-! ### What calls add to the replies -/

/-- A single write adds at most the reply to a single write. -/
theorem mem_replies_write
    {tenant : String}
    {write : Write}
    {key : Option String}
    (he : e ∈ (s.write moment tenant actor write key).2.replies.entries) :
    e ∈ s.replies.entries ∨ ∃ kind result, e.value = .single kind result := by
  cases key with
  | none =>
      have hsame := (s.writtenNow_writeNow moment tenant actor write none).replies_eq
      rw [show (s.write moment tenant actor write none).2.replies = s.replies from hsame] at he
      exact .inl he
  | some k =>
      have hlooked := (s.consulted_lookupReply tenant k moment.instant).replies
      have hwritten := s.written_write moment tenant actor write k
      generalize s.write moment tenant actor write (some k) = response at hwritten he
      obtain ⟨answer, final⟩ := response
      cases hwritten with
      | answered heq =>
          rw [heq] at hlooked
          exact .inl (hlooked e he)
      | refused heq hkind =>
          rw [heq] at hlooked
          exact .inl (hlooked e he)
      | failed heq hrun =>
          rw [heq] at hlooked
          exact .inl (hlooked e (hrun.replies_eq ▸ he))
      | carriedOut heq hrun =>
          rw [heq] at hlooked
          rcases Cache.mem_of_mem_insert he with rfl | hold
          · exact .inr ⟨_, _, rfl⟩
          · exact .inl (hlooked e (hrun.replies_eq ▸ hold))

/-- A reply is a result, under the key derived for its position. -/
def IsMember
    (e : CacheEntry (String × String) Reply)
    (tx : Transaction)
    (position : Nat)
    (results : List WriteResult) :
    Prop :=
  ∃ i result, results[i]? = some result ∧
    e.key = (tx.tenant, tx.derivedKey (position + i)) ∧ e.value = .member result

theorem IsMember.later
    {position : Nat}
    {later : List WriteResult}
    (h : IsMember e tx (position + 1) later)
    (first : WriteResult) :
    IsMember e tx position (first :: later) := by
  obtain ⟨i, result, hi, hkey, hvalue⟩ := h
  refine ⟨i + 1, result, hi, ?_, hvalue⟩
  rw [hkey, Nat.add_assoc, Nat.add_comm 1 i]

/-- The writes of a commit add results that it returns, under the keys derived for them. -/
theorem PerformsAll.mem_replies
    {position : Nat}
    {pending : List (Write × Option WriteResult)}
    {results : List WriteResult}
    {after : Store}
    (h : PerformsAll tx moment actor position pending s results after)
    (he : e ∈ after.replies.entries) :
    e ∈ s.replies.entries ∨ IsMember e tx position results := by
  induction h with
  | nil =>
      exact .inl he
  | recorded write prior hrest ih =>
      exact (ih he).imp_right fun hlater => hlater.later prior
  | @performed position write rest s s' after first later hperform hrest ih =>
      rcases ih he with hbefore | hlater
      · rcases Cache.mem_of_mem_insert hbefore with rfl | hold
        · exact .inr ⟨0, first, rfl, rfl, rfl⟩
        · exact .inl ((performed_of_perform hperform).replies_eq ▸ hold)
      · exact .inr (hlater.later first)

/-- A commit adds replies only if it found none under its id, and what it adds is its own. -/
theorem mem_replies_commit
    (he : e ∈ (s.commit moment tx actor).2.replies.entries) :
    e ∈ s.replies.entries ∨
      ∃ receipt, s.reply? tx.tenant tx.id moment.instant = none ∧
        (s.commit moment tx actor).1 = .ok receipt ∧ receipt.Records tx e.key e.value := by
  cases hreply : s.reply? tx.tenant tx.id moment.instant with
  | some reply =>
      exact .inl ((commit_of_reply? hreply actor).2.replies e he)
  | none =>
      have hlooked := (s.consulted_lookupReply tx.tenant tx.id moment.instant).replies
      have hconcluded := s.concluded_commit moment tx actor
      generalize s.commit moment tx actor = response at hconcluded he ⊢
      cases hconcluded with
      | looked hmore =>
          exact .inl (hlooked e (hmore.consulted.replies e he))
      | carriedOut hprepared hrun =>
          rcases Cache.mem_of_mem_insert he with rfl | hold
          · exact .inr ⟨_, rfl, rfl, .own⟩
          · rcases (performAll_eq_ok_iff.1 hrun).mem_replies hold with
              hbefore | ⟨i, result, hi, hkey, hvalue⟩
            · exact .inl (hlooked e (hprepared.looked.consulted.replies e hbefore))
            · rw [Nat.zero_add] at hkey
              rw [hkey, hvalue]
              exact .inr ⟨_, rfl, rfl, .member hi⟩

/-- The replies that a call may add. -/
inductive Adds
    (s : Store)
    (moment : Moment) :
    Call → String × String → Reply → Prop
  | single
      {call : Call}
      {key : String × String}
      {kind : ChangeKind}
      {result : WriteResult} :
      Adds s moment call key (.single kind result)
  | commit
      {tx : Transaction}
      {actor : String}
      {receipt : Receipt}
      {key : String × String}
      {reply : Reply}
      (hnone : s.reply? tx.tenant tx.id moment.instant = none)
      (hok : (s.commit moment tx actor).1 = .ok receipt)
      (hrecords : receipt.Records tx key reply) :
      Adds s moment (.commit tx actor) key reply

/-- A call adds no other replies. -/
theorem mem_replies_serve
    {call : Call}
    (he : e ∈ (s.serve moment call).2.replies.entries) :
    e ∈ s.replies.entries ∨ s.Adds moment call e.key e.value := by
  have hserved := s.served_serve moment call
  generalize s.serve moment call = response at hserved he
  cases hserved with
  | pathless hpath error =>
      exact .inl he
  | write hwrites =>
      rcases mem_replies_write he with hold | ⟨kind, result, hvalue⟩
      · exact .inl hold
      · rw [hvalue]
        exact .inr .single
  | commit tx actor =>
      rcases mem_replies_commit he with hold | ⟨receipt, hnone, hok, hrecords⟩
      · exact .inl hold
      · exact .inr (.commit hnone hok hrecords)
  | sweep =>
      exact .inl (Cache.mem_of_mem_sweep he)

theorem replies_createIndex
    (s : Store)
    (definition : IndexDefinition) :
    (s.createIndex definition).2.replies = s.replies := by
  obtain ⟨catalog, hcatalog⟩ := s.createIndex_with_catalog definition
  rw [hcatalog]

theorem replies_dropIndex
    (s : Store)
    (name : String) :
    (s.dropIndex name).2.replies = s.replies := by
  obtain ⟨catalog, hcatalog⟩ := s.dropIndex_with_catalog name
  rw [hcatalog]

/-! ### Results of one commit -/

/-- Between two stores a commit carried out one of its writes. -/
def Performs
    (s : Store)
    (tx : Transaction)
    (actor : String)
    (position : Nat)
    (write : Write)
    (result : WriteResult)
    (final : Store) :
    Prop :=
  ∃ before now after,
    s.log.entries <+: before.log.entries ∧
    Performed before tx.tenant write ⟨actor, some (tx.derivedKey position), some tx.id⟩ now result
      after ∧
    after.log.entries <+: final.log.entries

/-- A commit carries out its write at a position, for which nothing was recorded. -/
structure CarriesOutAt
    (s : Store)
    (moment : Moment)
    (tx : Transaction)
    (actor : String)
    (position : Nat)
    (result : WriteResult) :
    Prop where
  unanswered : s.reply? tx.tenant tx.id moment.instant = none
  unrecorded : s.reply? tx.tenant (tx.derivedKey position) moment.instant = none
  returned :
    ∃ receipt, (s.commit moment tx actor).1 = .ok receipt ∧
      receipt.results[position]? = some result
  performed :
    ∃ write, tx.writes[position]? = some write ∧
      s.Performs tx actor position write result (s.commit moment tx actor).2

/-- A result for the write at a position of a transaction is among the replies. -/
def HasResult
    (s : Store)
    (id : String × String)
    (position : Nat)
    (result : WriteResult) :
    Prop :=
  ∃ e ∈ s.replies.entries, e.key.1 = id.1 ∧ e.value.Holds e.key.2 id.2 position result

theorem Performs.of_later
    {s' final : Store}
    {position : Nat}
    {write : Write}
    {result : WriteResult}
    (h : s'.Performs tx actor position write result final)
    (hextends : s.log.entries <+: s'.log.entries) :
    s.Performs tx actor position write result final := by
  obtain ⟨before, now, after, hbefore, hperformed, hafter⟩ := h
  exact ⟨before, now, after, hextends.trans hbefore, hperformed, hafter⟩

theorem PerformsAll.log_prefix
    {position : Nat}
    {pending : List (Write × Option WriteResult)}
    {results : List WriteResult}
    {after : Store}
    (h : PerformsAll tx moment actor position pending s results after) :
    s.log.entries <+: after.log.entries := by
  have hmoves := moves_performAll tx moment actor pending position s
  rw [performAll_eq_ok_iff.2 h] at hmoves
  exact hmoves.log_prefix

/-- Each result of the writes of a commit was found for its write, or the write was carried out. -/
theorem PerformsAll.result_cases
    {position : Nat}
    {pending : List (Write × Option WriteResult)}
    {results : List WriteResult}
    {after : Store}
    (h : PerformsAll tx moment actor position pending s results after)
    {i : Nat}
    {result : WriteResult}
    (hi : results[i]? = some result) :
    ∃ write prior, pending[i]? = some (write, prior) ∧
      (prior = some result ∨
        prior = none ∧ s.Performs tx actor (position + i) write result after) := by
  have hsucc : ∀ position i : Nat, position + (i + 1) = position + 1 + i := by omega
  induction h generalizing i with
  | nil =>
      cases hi
  | @recorded position rest s after later write prior hrest ih =>
      cases i with
      | zero =>
          cases hi
          exact ⟨write, some result, rfl, .inl rfl⟩
      | succ i =>
          rw [hsucc position i]
          exact ih hi
  | @performed position write rest s s' after first later hperform hrest ih =>
      have hperformed := performed_of_perform hperform
      have hextends : s.log.entries <+: s'.log.entries := hperformed.log_prefix
      cases i with
      | zero =>
          cases hi
          refine ⟨write, none, rfl, .inr ⟨rfl, ?_⟩⟩
          exact ⟨{ s with clock := some _ }, _, s', List.prefix_refl _, hperformed,
            hrest.log_prefix⟩
      | succ i =>
          obtain ⟨write', prior, hpending, hprior⟩ := ih hi
          rw [hsucc position i]
          exact ⟨write', prior, hpending,
            hprior.imp_right fun hlater => ⟨hlater.1, hlater.2.of_later hextends⟩⟩

/-- A result that a commit returns is among the replies, or the commit carried out the write. -/
theorem carriesOutAt_or_hasResult
    {receipt : Receipt}
    (hok : (s.commit moment tx actor).1 = .ok receipt)
    {i : Nat}
    {result : WriteResult}
    (hi : receipt.results[i]? = some result) :
    s.CarriesOutAt moment tx actor i result ∨ s.HasResult (tx.tenant, tx.id) i result := by
  have hlooked := s.consulted_lookupReply tx.tenant tx.id moment.instant
  have hsame := s.reply?_lookupReply_same tx.tenant tx.id moment.instant (tx.derivedKey i)
  have hcommitted := s.committed_commit moment tx actor
  generalize hresponse : s.commit moment tx actor = response at hcommitted hok
  obtain ⟨answer, final⟩ := response
  cases hcommitted with
  | answered heq =>
      cases hok
      obtain ⟨e, he, hkey, hvalue⟩ := Cache.exists_of_get_eq_some (congrArg Prod.fst heq)
      refine .inr ⟨e, he, by rw [hkey], ?_⟩
      rw [hvalue]
      exact .committed (by rw [hkey]) hi
  | refused =>
      cases hok
  | memberRefused =>
      cases hok
  | failed =>
      cases hok
  | @carriedOut _ s' _ _ _ heq hderived hchecked hrun =>
      cases hok
      rw [heq] at hlooked hsame
      have hmore := consulted_derivedReplies tx moment.instant 0 tx.writes s'
      rw [hderived] at hmore
      obtain ⟨write, prior, hpending, hprior⟩ := (performAll_eq_ok_iff.1 hrun).result_cases hi
      obtain ⟨hwrite, hfound⟩ := List.getElem?_zip_eq_some.1 hpending
      have hreply := reply?_of_derivedReplies hderived hfound
      rw [Nat.zero_add, hsame] at hreply
      rw [Nat.zero_add] at hprior
      rcases hprior with rfl | ⟨rfl, hperforms⟩
      · obtain ⟨e, he, hkey, hvalue⟩ := Cache.exists_of_get_eq_some hreply
        refine .inr ⟨e, he, by rw [hkey], ?_⟩
        rw [hvalue]
        exact .member (by rw [hkey]; rfl)
      · unfold Performs at hperforms
        rw [(hlooked.trans hmore).log_eq] at hperforms
        exact .inl
          { unanswered := congrArg Prod.fst heq
            unrecorded := hreply
            returned := ⟨_, congrArg Prod.fst hresponse, hi⟩
            performed := ⟨write, hwrite, hresponse ▸ hperforms⟩ }

/-! ### Results in the course of a run -/

/--
In the course of a run a commit carried out the write at a position of a
transaction, which is known by its tenant and its id.
-/
def CarriedOut
    (start : Store)
    (calls : List (Moment × Call))
    (s : Store)
    (id : String × String)
    (position : Nat)
    (result : WriteResult) :
    Prop :=
  ∃ earlier before moment tx actor later,
    calls = earlier ++ (moment, .commit tx actor) :: later ∧
    Run start earlier before ∧
    before.CarriesOutAt moment tx actor position result ∧
    Run (before.commit moment tx actor).2 later s ∧
    id = (tx.tenant, tx.id)

theorem CarriedOut.trans
    {start s' : Store}
    {calls more : List (Moment × Call)}
    {id : String × String}
    {position : Nat}
    {result : WriteResult}
    (h : CarriedOut start calls s id position result)
    (hmore : Run s more s') :
    CarriedOut start (calls ++ more) s' id position result := by
  obtain ⟨earlier, before, moment, tx, actor, later, rfl, hearlier, hcarries, hlater, hid⟩ := h
  exact ⟨earlier, before, moment, tx, actor, later ++ more, by simp, hearlier, hcarries,
    hlater.trans hmore, hid⟩

/-- Every result among the replies was carried out for its transaction and position. -/
theorem Run.carriedOut
    {start : Store}
    {calls : List (Moment × Call)}
    (h : Run start calls s)
    (hstart : start.replies.entries = [])
    {id : String × String}
    {position : Nat}
    {result : WriteResult}
    (hresult : s.HasResult id position result) :
    CarriedOut start calls s id position result := by
  induction h with
  | start =>
      obtain ⟨e, he, -⟩ := hresult
      rw [hstart] at he
      cases he
  | @serve calls s hs moment call ih =>
      have hstep : Run s [(moment, call)] (s.serve moment call).2 := Run.start.serve moment call
      obtain ⟨e, he, htenant, hholds⟩ := hresult
      rcases mem_replies_serve he with hold | hadds
      · exact (ih ⟨e, hold, htenant, hholds⟩).trans hstep
      · obtain ⟨key, reply, insertedAt⟩ := e
        cases hadds with
        | single =>
            cases hholds
        | @commit tx actor receipt _ _ hnone hok hrecords =>
            obtain ⟨hkey, hid, hi⟩ := hrecords.of_holds hholds
            obtain rfl : id = (tx.tenant, tx.id) := Prod.ext (htenant.symm.trans hkey) hid
            rcases carriesOutAt_or_hasResult hok hi with hcarries | hold
            · exact ⟨calls, s, moment, tx, actor, [], rfl, hs, hcarries, .start, rfl⟩
            · exact (ih hold).trans hstep
  | @createIndex calls s hs definition ih =>
      unfold HasResult at hresult
      rw [s.replies_createIndex] at hresult
      rw [← List.append_nil calls]
      exact (ih hresult).trans (Run.start.createIndex definition)
  | @dropIndex calls s hs name ih =>
      unfold HasResult at hresult
      rw [s.replies_dropIndex] at hresult
      rw [← List.append_nil calls]
      exact (ih hresult).trans (Run.start.dropIndex name)

/--
Derived keys identify the writes of transactions.  Whatever ids look like, a
derived key tells the id and the position and is not its own id; so after any
run each result that a commit returns is that of its own write.  The commit
carried the write out, or an earlier commit of the same transaction carried out
its write at the same position.
-/
theorem Run.results_are_of_own_writes
    {limit capacity lifetime : Nat}
    {tenantField : String}
    {calls : List (Moment × Call)}
    (h : Run (Store.new limit capacity lifetime tenantField) calls s) :
    (∀ (tx tx' : Transaction) (i j : Nat),
      tx.derivedKey i = tx'.derivedKey j ↔ tx.id = tx'.id ∧ i = j) ∧
    (∀ (tx : Transaction) (i : Nat), tx.derivedKey i ≠ tx.id) ∧
    ∀ (moment : Moment) (tx : Transaction) (actor : String) (receipt : Receipt) (i : Nat)
      (result : WriteResult),
      (s.commit moment tx actor).1 = .ok receipt →
      receipt.results[i]? = some result →
      s.CarriesOutAt moment tx actor i result ∨
        CarriedOut (Store.new limit capacity lifetime tenantField) calls s (tx.tenant, tx.id) i
          result := by
  refine ⟨fun tx tx' i j => Transaction.derivedKey_eq_iff, Transaction.derivedKey_ne_id, ?_⟩
  intro moment tx actor receipt i result hok hi
  exact (carriesOutAt_or_hasResult hok hi).imp_right (h.carriedOut rfl)

/-- A store with room for three replies. -/
def scarce : Store :=
  Store.new 500 3 1000 "tenantId"

/-- An order is created and then opened; the id looks like a derived key. -/
def opening : Transaction where
  id := "t#1"
  tenant := "T1"
  writes := [.create orderPath (.object [("total", .ofNat 3)]),
    .update orderPath (.object [("state", .string "open")]) none true]
  reads := []
  limit := 500

/--
A commit; a single write under its first derived key, which is refused but
keeps the result there in use; two writes whose replies displace the rest.
-/
def displacingCalls : List (Moment × Call) :=
  [(⟨0, fun _ => ⟨1⟩⟩, .commit opening "ann"),
   (⟨1, fun _ => ⟨2⟩⟩, .create "T1" "bob" "orders/O2" (.object []) (some "t#1#0")),
   (⟨2, fun _ => ⟨3⟩⟩, .create "T1" "bob" "orders/O3" (.object []) (some "a")),
   (⟨3, fun _ => ⟨4⟩⟩, .create "T1" "bob" "orders/O4" (.object []) (some "b"))]

/-- The commit, asked for again, finds its first result, which is that of its own first write. -/
theorem creation_comes_from_own_write :
    (scarce.afterCalls displacingCalls).reply? "T1" "t#1" 4 = none ∧
    (scarce.afterCalls displacingCalls).reply? "T1" "t#1#0" 4 ≠ none ∧
    ∃ receipt result,
      ((scarce.afterCalls displacingCalls).commit ⟨4, fun _ => ⟨5⟩⟩ opening "ann").1 =
        .ok receipt ∧
      receipt.results[0]? = some result ∧
      CarriedOut scarce displacingCalls (scarce.afterCalls displacingCalls) ("T1", "t#1") 0
        result := by
  have hrun : Run scarce displacingCalls (scarce.afterCalls displacingCalls) :=
    Run.start.afterCalls displacingCalls
  have hfound : (scarce.afterCalls displacingCalls).reply? "T1" "t#1#0" 4 ≠ none := by
    decide +kernel
  have hkey : opening.derivedKey 0 = "t#1#0" := by decide +kernel
  obtain ⟨receipt, result, hok, hi⟩ : ∃ receipt result,
      ((scarce.afterCalls displacingCalls).commit ⟨4, fun _ => ⟨5⟩⟩ opening "ann").1 =
        .ok receipt ∧ receipt.results[0]? = some result :=
    ⟨_, _, rfl, rfl⟩
  refine ⟨by decide +kernel, hfound, receipt, result, hok, hi, ?_⟩
  rcases hrun.results_are_of_own_writes.2.2 _ opening "ann" receipt 0 result hok hi with
    hcarries | hearlier
  · exact absurd (hkey ▸ hcarries.unrecorded) hfound
  · exact hearlier

end Store
end DocumentStore
