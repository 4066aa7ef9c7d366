import DocumentStore.Proofs.Cache.Cover
import DocumentStore.Proofs.Store.Commit
import DocumentStore.Proofs.Store.Provenance
import DocumentStore.Proofs.Store.Retries
import DocumentStore.Proofs.Store.Simulation

/-!
# Commits are replayed whole or not at all

The results of the writes of a commit are recorded under derived keys, and its
receipt is recorded last, under the id of the transaction.  So the receipt is
used no less recently than the results and expires no earlier, and stays so,
as a commit that is asked for again looks for its receipt first.  The table of
replies may be as small as it likes, and replies may make room for others in
the middle of a commit: when a commit starts, then its receipt is live, or none
of the results is.

For this the keys that calls bring themselves must not look like derived keys.
-/

namespace DocumentStore

/-- A reply is the receipt of a commit. -/
def Reply.IsReceipt (reply : Reply) : Prop :=
  ∃ receipt, reply = .committed receipt

namespace Store

/-- The keys that calls bring themselves: idempotency keys and ids of transactions. -/
def ownKeys (calls : List (Moment × Call)) : List (String × String) :=
  calls.filterMap fun call => call.2.key?

/-- The keys that are derived for the writes of a transaction that a call commits. -/
def Call.derivedKeys : Call → List (String × String)
  | .commit tx _ => (List.range tx.writes.length).map fun i => (tx.tenant, tx.derivedKey i)
  | _ => []

/-- No call brings a key that is derived for a write of a transaction. -/
def KeysApart (calls : List (Moment × Call)) : Prop :=
  ∀ call ∈ calls, ∀ key ∈ call.2.derivedKeys, key ∉ ownKeys calls

instance (calls : List (Moment × Call)) : Decidable (KeysApart calls) :=
  inferInstanceAs (Decidable (∀ call ∈ calls, ∀ key ∈ call.2.derivedKeys, key ∉ ownKeys calls))

/-- The brought keys of a call are among some keys, and its derived ones are not. -/
structure Call.Apart
    (own : List (String × String))
    (call : Call) :
    Prop where
  brought : ∀ key, call.key? = some key → key ∈ own
  derived : ∀ key ∈ call.derivedKeys, key ∉ own

theorem KeysApart.apart
    {calls : List (Moment × Call)}
    (h : KeysApart calls)
    {call : Moment × Call}
    (hmem : call ∈ calls) :
    call.2.Apart (ownKeys calls) where
  brought := fun _ hkey => List.mem_filterMap.2 ⟨call, hmem, hkey⟩
  derived := h call hmem

/-- The derived keys of a commit whose keys are apart are not brought. -/
theorem Call.Apart.derivedKey_not_mem
    {own : List (String × String)}
    {tx : Transaction}
    {actor : String}
    (h : (Call.commit tx actor).Apart own)
    {i : Nat}
    (hi : i < tx.writes.length) :
    (tx.tenant, tx.derivedKey i) ∉ own :=
  h.derived _ (List.mem_map.2 ⟨i, List.mem_range.2 hi, rfl⟩)

/-- A key is derived from the id of a transaction and is not brought by a call. -/
def Member
    (own : List (String × String))
    (id key : String × String) :
    Prop :=
  key ∉ own ∧ ∃ i : Nat, key = (id.1, id.2 ++ "#" ++ toString i)

/-- A derived key that is not brought is a member of its transaction. -/
theorem member_derivedKey
    {own : List (String × String)}
    {tx : Transaction}
    {i : Nat}
    (h : (tx.tenant, tx.derivedKey i) ∉ own) :
    Member own (tx.tenant, tx.id) (tx.tenant, tx.derivedKey i) :=
  ⟨h, i, rfl⟩

theorem not_member_of_mem
    {own : List (String × String)}
    {key : String × String}
    (h : key ∈ own)
    (id : String × String) :
    ¬ Member own id key :=
  fun hmember => hmember.1 h

theorem Member.id_eq
    {own : List (String × String)}
    {tx : Transaction}
    {id : String × String}
    {i : Nat}
    (h : Member own id (tx.tenant, tx.derivedKey i)) :
    id = (tx.tenant, tx.id) := by
  obtain ⟨-, j, heq⟩ := h
  obtain ⟨htenant, hkey⟩ := Prod.mk.inj heq
  exact Prod.ext htenant.symm (Text.markedPosition_inj hkey).1.symm

/-- The live replies to the writes of a transaction are covered by its receipt. -/
abbrev CoveredBy
    (own : List (String × String))
    (id : String × String)
    (replies : Cache (String × String) Reply)
    (now : Nat) :
    Prop :=
  replies.Covered id (Member own id) Reply.IsReceipt now

/-- No reply to a write of a transaction outlives the receipt. -/
structure Sheltered
    (own : List (String × String))
    (s : Store)
    (now : Nat) :
    Prop where
  tidy : s.replies.Tidy now
  covered : ∀ id ∈ own, CoveredBy own id s.replies now

namespace Sheltered

variable
  {own : List (String × String)}
  {s : Store}
  {moment : Moment}
  {now : Nat}

theorem congr
    {s' : Store}
    (h : s.Sheltered own now)
    (hreplies : s'.replies = s.replies) :
    s'.Sheltered own now := by
  obtain ⟨htidy, hcovered⟩ := h
  rw [← hreplies] at htidy hcovered
  exact ⟨htidy, hcovered⟩

theorem later
    {now' : Nat}
    (h : s.Sheltered own now)
    (hle : now ≤ now') :
    s.Sheltered own now' :=
  ⟨h.tidy.later hle, fun id hid => (h.covered id hid).later hle⟩

theorem sweep (h : s.Sheltered own now) :
    (s.sweep now).2.Sheltered own now :=
  ⟨h.tidy.sweep, fun id hid => (h.covered id hid).sweep⟩

/-- A lookup of a brought key, or one that finds nothing, leaves no result unsheltered. -/
theorem lookupReply
    (h : s.Sheltered own now)
    {tenant key : String}
    (hkey : (tenant, key) ∈ own ∨ (s.lookupReply tenant key now).1 = none) :
    (s.lookupReply tenant key now).2.Sheltered own now := by
  refine ⟨h.tidy.get (tenant, key), fun id hid => ?_⟩
  refine (h.covered id hid).get h.tidy ?_
  exact hkey.imp (fun hown => not_member_of_mem hown id) fun hnone => hnone

/-- Recording the reply to a single write under a key that was not found. -/
theorem record_single
    (h : s.Sheltered own now)
    {tenant key : String}
    (hkey : (tenant, key) ∈ own)
    (hnone : s.replies.entryAt? (tenant, key) = none)
    (reply : Reply) :
    (s.record tenant key reply now).Sheltered own now := by
  refine ⟨h.tidy.insert (tenant, key) reply, fun id hid => ?_⟩
  have hnot := not_member_of_mem hkey id
  by_cases hid' : id = (tenant, key)
  · subst hid'
    have hexpired := (h.covered _ hid).expired_of_entryAt?_eq_none hnone
    exact .insert_of_expired hexpired hnot reply
  · exact (h.covered id hid).insert h.tidy hnot hid' reply

/-! ### Single writes -/

/-- A write under a brought key leaves no result unsheltered. -/
theorem write
    (h : s.Sheltered own moment.instant)
    {tenant : String}
    {key : Option String}
    (hkey : ∀ k ∈ key, (tenant, k) ∈ own)
    (actor : String)
    (write : Write) :
    (s.write moment tenant actor write key).2.Sheltered own moment.instant := by
  cases key with
  | none =>
      exact h.congr (s.writtenNow_writeNow moment tenant actor write none).replies_eq
  | some k =>
      have hown : (tenant, k) ∈ own := hkey k rfl
      have hlooked := h.lookupReply (.inl hown)
      have hnone := @Cache.entryAt?_get_of_eq_none _ _ _ s.replies (tenant, k) moment.instant
      have hwritten := s.written_write moment tenant actor write k
      generalize s.write moment tenant actor write (some k) = response at hwritten ⊢
      obtain ⟨answer, final⟩ := response
      cases hwritten with
      | answered heq =>
          rw [heq] at hlooked
          exact hlooked
      | refused heq hkind =>
          rw [heq] at hlooked
          exact hlooked
      | failed heq hrun =>
          rw [heq] at hlooked
          exact hlooked.congr hrun.replies_eq
      | @carriedOut _ s' after heq hrun =>
          have habsent : (s.lookupReply tenant k moment.instant).2.replies.entryAt? (tenant, k) =
              none :=
            hnone (congrArg Prod.fst heq)
          rw [heq] at hlooked habsent
          refine (hlooked.congr hrun.replies_eq).record_single hown ?_ _
          rw [hrun.replies_eq]
          exact habsent

/-! ### Commits -/

/-- Without an entry for the receipt, the results of a transaction are not found. -/
theorem derivedReplies
    (h : s.Sheltered own now)
    {tx : Transaction}
    (hid : (tx.tenant, tx.id) ∈ own)
    (hderived : ∀ i, i < tx.writes.length → (tx.tenant, tx.derivedKey i) ∉ own)
    (hnone : s.replies.entryAt? (tx.tenant, tx.id) = none) :
    (Store.derivedReplies tx now 0 tx.writes s).2.Sheltered own now := by
  have hpreserved := @derivedReplies_preserves
    (fun t => t.Sheltered own now ∧ t.replies.entryAt? (tx.tenant, tx.id) = none)
    tx now tx.writes 0 s ?_ ⟨h, hnone⟩
  · exact hpreserved.1
  · rintro t i - hi ⟨ht, habsent⟩
    have hmember := member_derivedKey (hderived i (by omega))
    have hmissed : (t.lookupReply tx.tenant (tx.derivedKey i) now).1 = none := by
      refine (ht.covered _ hid).get_eq_none ht.tidy (fun value hfound => ?_) hmember
      rw [Cache.get_fst, habsent] at hfound
      cases hfound
    refine ⟨ht.lookupReply (.inr hmissed), ?_⟩
    have hne : (tx.tenant, tx.id) ≠ (tx.tenant, tx.derivedKey i) := fun heq =>
      tx.derivedKey_ne_id i (Prod.mk.inj heq).2.symm
    exact (t.replies.entryAt?_get_of_ne now hne).trans habsent

/-- The receipt that is recorded after the results of a commit covers them. -/
theorem record_receipt
    (h : s.Sheltered own moment.instant)
    {tx : Transaction}
    {actor : String}
    {priors : List (Option WriteResult)}
    {results : Except StoreError (List WriteResult)}
    {after : Store}
    (hid : (tx.tenant, tx.id) ∈ own)
    (hderived : ∀ i, i < tx.writes.length → (tx.tenant, tx.derivedKey i) ∉ own)
    (hunknown : s.Unknown tx 0 (tx.writes.zip priors))
    (hrun : performAll tx moment actor 0 (tx.writes.zip priors) s = (results, after))
    (receipt : Receipt) :
    (after.record tx.tenant tx.id (.committed receipt) moment.instant).Sheltered own
      moment.instant := by
  -- while the results are recorded, only those of other transactions are sheltered
  have hothers := performAll_preserves tx moment actor
    (motive := fun t => t.replies.Tidy moment.instant ∧
      ∀ id ∈ own, id ≠ (tx.tenant, tx.id) → CoveredBy own id t.replies moment.instant)
    (fun _ _ ht => ht) (tx.writes.zip priors) 0 s ?_ hunknown
    ⟨h.tidy, fun id hmem _ => h.covered id hmem⟩
  · rw [hrun] at hothers
    obtain ⟨htidy, hcovered⟩ := hothers
    refine ⟨htidy.insert _ _, fun id hmem => ?_⟩
    have hnot := not_member_of_mem hid id
    by_cases hsame : id = (tx.tenant, tx.id)
    · subst hsame
      exact .insert_owner htidy hnot ⟨receipt, rfl⟩
    · exact (hcovered id hmem hsame).insert htidy hnot hsame _
  · rintro t t' position write time result - hposition ⟨htidy, hcovered⟩ - hperformed
    have hlength : position < tx.writes.length := by
      rw [List.length_zip] at hposition
      omega
    have hkey := hderived position hlength
    rw [← hperformed.replies_eq] at htidy hcovered
    refine ⟨htidy.insert _ _, fun id hmem hother => ?_⟩
    refine (hcovered id hmem hother).insert htidy ?_ ?_ _
    · exact fun hmember => hother hmember.id_eq
    · rintro rfl
      exact hkey hmem

/-- A commit with its keys apart leaves no result unsheltered. -/
theorem commit
    (h : s.Sheltered own moment.instant)
    {tx : Transaction}
    (hid : (tx.tenant, tx.id) ∈ own)
    (hderived : ∀ i, i < tx.writes.length → (tx.tenant, tx.derivedKey i) ∉ own)
    (actor : String) :
    (s.commit moment tx actor).2.Sheltered own moment.instant := by
  have hlooked := h.lookupReply (.inl hid)
  have hnone := @Cache.entryAt?_get_of_eq_none _ _ _ s.replies (tx.tenant, tx.id) moment.instant
  -- after the lookup of the receipt found nothing, the results are looked up in vain
  have hmore : ∀ s', s.lookupReply tx.tenant tx.id moment.instant = (none, s') →
      (Store.derivedReplies tx moment.instant 0 tx.writes s').2.Sheltered own moment.instant := by
    intro s' heq
    have habsent : (s.lookupReply tx.tenant tx.id moment.instant).2.replies.entryAt?
        (tx.tenant, tx.id) = none :=
      hnone (congrArg Prod.fst heq)
    rw [heq] at hlooked habsent
    exact hlooked.derivedReplies hid hderived habsent
  have hcommitted := s.committed_commit moment tx actor
  generalize s.commit moment tx actor = response at hcommitted ⊢
  obtain ⟨answer, final⟩ := response
  cases hcommitted with
  | answered heq =>
      rw [heq] at hlooked
      exact hlooked
  | refused heq hkind =>
      rw [heq] at hlooked
      exact hlooked
  | @memberRefused _ s' _ heq hfound =>
      have hfinal := hmore s' heq
      rwa [hfound] at hfinal
  | @failed _ s' _ _ heq hfound hrefusal =>
      have hfinal := hmore s' heq
      rwa [hfound] at hfinal
  | @carriedOut _ s' _ _ _ heq hfound hchecked hrun =>
      have hfinal := hmore s' heq
      rw [hfound] at hfinal
      exact hfinal.record_receipt hid hderived (unknown_of_derivedReplies_eq_ok hfound) hrun _

/-! ### Runs -/

/-- A call with its keys apart leaves no result unsheltered. -/
theorem serve
    (h : s.Sheltered own moment.instant)
    {call : Call}
    (hapart : call.Apart own) :
    (s.serve moment call).2.Sheltered own moment.instant := by
  have hserved := s.served_serve moment call
  generalize s.serve moment call = response at hserved
  cases hserved with
  | pathless hpath e =>
      exact h
  | @write _ tenant _ _ key hwrites =>
      refine h.write (fun k hk => hapart.brought _ ?_) _ _
      rw [hwrites.key?_eq, Option.mem_def.1 hk]
      rfl
  | commit tx actor =>
      exact h.commit (hapart.brought _ rfl) (fun i hi => hapart.derivedKey_not_mem hi) actor
  | sweep =>
      exact h.sweep

/-- After a run with keys apart, at instants that do not decrease, no result is unsheltered. -/
theorem of_run
    {limit capacity lifetime : Nat}
    {tenantField : String}
    {calls : List (Moment × Call)}
    (h : Run (Store.new limit capacity lifetime tenantField) calls s)
    (hapart : ∀ call ∈ calls, call.2.Apart own)
    (hinstants : (calls.map fun call => call.1.instant).Pairwise (· ≤ ·))
    (hnow : ∀ call ∈ calls, call.1.instant ≤ now) :
    s.Sheltered own now := by
  induction h generalizing now with
  | start =>
      exact ⟨⟨.nil, fun e he => absurd he List.not_mem_nil⟩,
        fun id _ e he => absurd he List.not_mem_nil⟩
  | @serve calls s _ moment call ih =>
      rw [List.map_append, List.pairwise_append] at hinstants
      obtain ⟨hearlier, -, hlast⟩ := hinstants
      have hs : s.Sheltered own moment.instant := by
        refine ih (fun c hc => hapart c (List.mem_append_left _ hc)) hearlier ?_
        intro c hc
        exact hlast _ (List.mem_map_of_mem hc) _ (by simp)
      have hmem : (moment, call) ∈ calls ++ [(moment, call)] := by simp
      exact (hs.serve (hapart _ hmem)).later (hnow _ hmem)
  | createIndex _ definition ih =>
      exact (ih hapart hinstants hnow).congr (replies_createIndex _ definition)
  | dropIndex _ name ih =>
      exact (ih hapart hinstants hnow).congr (replies_dropIndex _ name)

/-- The receipt of a transaction is live, or none of its derived keys is. -/
theorem receipt_or_none
    (h : s.Sheltered own now)
    {tx : Transaction}
    (hid : (tx.tenant, tx.id) ∈ own) :
    (∃ receipt, s.reply? tx.tenant tx.id now = some (.committed receipt)) ∨
      ∀ i, (tx.tenant, tx.derivedKey i) ∉ own →
        s.reply? tx.tenant (tx.derivedKey i) now = none := by
  by_cases hreceipt : ∃ receipt, s.reply? tx.tenant tx.id now = some (.committed receipt)
  · exact .inl hreceipt
  · refine .inr fun i hi => (h.covered _ hid).get_eq_none h.tidy ?_ (member_derivedKey hi)
    rintro reply hfound ⟨receipt, rfl⟩
    exact hreceipt ⟨receipt, hfound⟩

end Sheltered

/-! ### Where receipts come from -/

/-- A receipt was returned by a commit of a run that found no reply under its id. -/
def Issued
    (start : Store)
    (calls : List (Moment × Call))
    (id : String × String)
    (receipt : Receipt) :
    Prop :=
  ∃ earlier moment tx actor later s,
    calls = earlier ++ (moment, .commit tx actor) :: later ∧
    Run start earlier s ∧
    id = (tx.tenant, tx.id) ∧
    s.reply? tx.tenant tx.id moment.instant = none ∧
    (s.commit moment tx actor).1 = .ok receipt

theorem Issued.append
    {start : Store}
    {calls : List (Moment × Call)}
    {id : String × String}
    {receipt : Receipt}
    (h : Issued start calls id receipt)
    (more : List (Moment × Call)) :
    Issued start (calls ++ more) id receipt := by
  obtain ⟨earlier, moment, tx, actor, later, s, rfl, h⟩ := h
  exact ⟨earlier, moment, tx, actor, later ++ more, s, by simp, h⟩

/-- Every receipt among the replies was returned by a commit of the run. -/
theorem Run.issued
    {start s : Store}
    {calls : List (Moment × Call)}
    (h : Run start calls s)
    (hstart : start.replies.entries = [])
    {e : CacheEntry (String × String) Reply}
    (he : e ∈ s.replies.entries)
    {receipt : Receipt}
    (hreceipt : e.value = .committed receipt) :
    Issued start calls e.key receipt := by
  induction h with
  | start =>
      rw [hstart] at he
      cases he
  | @serve calls s hs moment call ih =>
      rcases mem_replies_serve he with hbefore | hadds
      · exact (ih hbefore).append _
      · rw [hreceipt] at hadds
        obtain ⟨key, reply, insertedAt⟩ := e
        cases hadds with
        | @commit tx actor _ _ _ hnone hok hrecords =>
            cases hrecords with
            | own =>
                exact ⟨calls, moment, tx, actor, [], s, rfl, hs, rfl, hnone, hok⟩
  | @createIndex calls s _ definition ih =>
      exact ih (s.replies_createIndex definition ▸ he)
  | @dropIndex calls s _ name ih =>
      exact ih (s.replies_dropIndex name ▸ he)

/-! ### Commits without recorded replies -/

/-- The store with all recorded replies forgotten. -/
def forgetful (s : Store) : Store :=
  { s with replies := s.replies.clear }

/--
A commit goes as in a store where no reply was ever recorded: the same answer,
and but for the replies the same store.
-/
def CommitsAnew
    (s : Store)
    (moment : Moment)
    (tx : Transaction)
    (actor : String) :
    Prop :=
  (s.commit moment tx actor).1 = (s.forgetful.commit moment tx actor).1 ∧
    { (s.commit moment tx actor).2 with
      replies := (s.forgetful.commit moment tx actor).2.replies } =
      (s.forgetful.commit moment tx actor).2

/-- Stores that differ in their replies only. -/
def SameButReplies (s t : Store) : Prop :=
  ∃ replies, t = { s with replies }

theorem SameButReplies.eq
    {s t : Store}
    (h : SameButReplies s t) :
    { s with replies := t.replies } = t := by
  obtain ⟨replies, rfl⟩ := h
  rfl

/-- Carrying out a write does not look at the replies. -/
theorem perform_with_replies
    (s : Store)
    (replies : Cache (String × String) Reply)
    (tenant : String)
    (write : Write)
    (origin : Origin)
    (now : Timestamp) :
    ({ s with replies } : Store).perform tenant write origin now =
      (s.perform tenant write origin now).map fun done =>
        (done.1, { done.2 with replies }) := by
  unfold perform
  dsimp only
  split <;> rfl

/-- Writes are carried out without looking at the replies. -/
theorem carriesAlike_sameButReplies
    (tenant : String)
    (moment : Moment)
    (count : Nat) :
    CarriesAlike tenant moment count fun _ => SameButReplies where
  version? := by
    rintro _ s t ⟨replies, rfl⟩ path
    rfl
  time := by
    rintro _ s t - ⟨replies, rfl⟩
    rfl
  tick := by
    rintro _ s t - ⟨replies, rfl⟩
    exact ⟨replies, rfl⟩
  skip := fun _ h => h
  record := by
    rintro _ s t ⟨replies, rfl⟩ key reply
    exact ⟨_, rfl⟩
  perform := by
    rintro _ s t ⟨replies, rfl⟩ write origin now
    rw [s.perform_with_replies replies tenant write origin now]
    cases s.perform tenant write origin now with
    | error e =>
        exact .inl ⟨e, rfl, rfl⟩
    | ok done =>
        exact .inr ⟨done.1, done.2, _, rfl, rfl, replies, rfl⟩

/-- A commit none of whose keys has a reply goes as if no reply was ever recorded. -/
theorem commitsAnew_of_fresh
    {s : Store}
    {moment : Moment}
    {tx : Transaction}
    (actor : String)
    (hfresh : ∀ key ∈ tx.keys, s.reply? tx.tenant key moment.instant = none) :
    s.CommitsAnew moment tx actor := by
  have hnever : ∀ key ∈ tx.keys, s.forgetful.reply? tx.tenant key moment.instant = none :=
    fun _ _ => rfl
  obtain ⟨s', hs', hs⟩ := exists_commit_of_fresh actor hfresh
  obtain ⟨t', ht', ht⟩ := exists_commit_of_fresh actor hnever
  have hsame : SameButReplies s' t' := by
    rw [ht'.rest, hs'.rest]
    exact ⟨t'.replies, rfl⟩
  have hcarries := carriesAlike_sameButReplies tx.tenant moment tx.writes.length
  have hrefusal := refusal?_congr (hcarries.version? (n := 0) hsame) moment.order
    (tx.writes.map fun _ => none)
  obtain ⟨results, u, v, hu, hv, huv⟩ := agreeIn_of_atSome
    (hcarries.performAll (n := 0) actor (tx.writes.map fun w => (w, none)) (by simp) hsame)
  unfold CommitsAnew
  rw [hs, ht, hrefusal, hu, hv]
  cases s'.refusal? tx moment.order (tx.writes.map fun _ => none) with
  | some e =>
      exact ⟨rfl, hsame.eq⟩
  | none =>
      cases results with
      | error e =>
          exact ⟨rfl, huv.eq⟩
      | ok results =>
          exact ⟨rfl, (hcarries.record (n := 0) huv _ _).eq⟩

/-! ### Whole or anew -/

/-- A commit returns the receipt that an earlier commit of its transaction returned, and no more. -/
structure Replays
    (start : Store)
    (calls : List (Moment × Call))
    (s : Store)
    (moment : Moment)
    (tx : Transaction)
    (actor : String)
    (receipt : Receipt) :
    Prop where
  live : s.reply? tx.tenant tx.id moment.instant = some (.committed receipt)
  returned : (s.commit moment tx actor).1 = .ok receipt
  unchanged : Consulted s (s.commit moment tx actor).2
  issued : Issued start calls (tx.tenant, tx.id) receipt

/-- A commit finds no results of its writes, and carries all of them out as new ones. -/
structure StartsOver
    (calls : List (Moment × Call))
    (s : Store)
    (moment : Moment)
    (tx : Transaction)
    (actor : String) :
    Prop where
  /-- No derived key is live, for the writes of this commit or of earlier ones. -/
  unknown : ∀ i, (tx.tenant, tx.derivedKey i) ∉ ownKeys calls →
    s.reply? tx.tenant (tx.derivedKey i) moment.instant = none
  anew : s.reply? tx.tenant tx.id moment.instant = none → s.CommitsAnew moment tx actor
  /-- The id may be the key of a single write; then the commit is refused. -/
  refused : ∀ reply, s.reply? tx.tenant tx.id moment.instant = some reply →
    (s.commit moment tx actor).1 = .error (.keyReused tx.id reply.kind) ∧
      Consulted s (s.commit moment tx actor).2

/-- A commit that finds a receipt returns it. -/
theorem commit_of_receipt
    {s : Store}
    {moment : Moment}
    {tx : Transaction}
    {receipt : Receipt}
    (h : s.reply? tx.tenant tx.id moment.instant = some (.committed receipt))
    (actor : String) :
    (s.commit moment tx actor).1 = .ok receipt := by
  have hgiven := (commit_of_reply? h actor).1
  unfold answering at hgiven
  generalize (s.commit moment tx actor).1 = answer at hgiven ⊢
  cases answer with
  | error e => cases hgiven
  | ok returned =>
      cases hgiven
      rfl

/-- A commit that finds a reply other than a receipt is refused. -/
theorem commit_of_not_isReceipt
    {s : Store}
    {moment : Moment}
    {tx : Transaction}
    {reply : Reply}
    (h : s.reply? tx.tenant tx.id moment.instant = some reply)
    (hreply : ¬ reply.IsReceipt)
    (actor : String) :
    (s.commit moment tx actor).1 = .error (.keyReused tx.id reply.kind) := by
  have hgiven := (commit_of_reply? h actor).1
  have hkind : some ReplyKind.commit ≠ some reply.kind := by
    intro hkind
    cases reply with
    | single kind result => cases kind <;> cases hkind
    | member result => cases hkind
    | committed receipt => exact hreply ⟨receipt, rfl⟩
  rw [Reply.given, if_neg hkind] at hgiven
  unfold answering at hgiven
  generalize (s.commit moment tx actor).1 = answer at hgiven ⊢
  cases answer with
  | error e =>
      cases hgiven
      rfl
  | ok returned => cases hgiven

/--
A commit after any run with keys apart returns the receipt of its transaction
whole, or finds no results of its writes and goes anew, however small the table
of replies is and however soon replies expire.
-/
theorem Run.commit_replays_or_starts_over
    {limit capacity lifetime : Nat}
    {tenantField : String}
    {calls : List (Moment × Call)}
    {s : Store}
    {moment : Moment}
    {tx : Transaction}
    {actor : String}
    (h : Run (Store.new limit capacity lifetime tenantField) calls s)
    (hapart : KeysApart (calls ++ [(moment, .commit tx actor)]))
    (hinstants : ((calls ++ [(moment, Call.commit tx actor)]).map fun call =>
      call.1.instant).Pairwise (· ≤ ·)) :
    (∃ receipt, Replays (Store.new limit capacity lifetime tenantField) calls s moment tx actor
      receipt) ∨ StartsOver calls s moment tx actor := by
  have hlast : (moment, Call.commit tx actor) ∈ calls ++ [(moment, Call.commit tx actor)] := by
    simp
  have hcommit := hapart.apart hlast
  have hid : (tx.tenant, tx.id) ∈ ownKeys (calls ++ [(moment, .commit tx actor)]) :=
    hcommit.brought _ rfl
  have hderived : ∀ i, (tx.tenant, tx.derivedKey i) ∉ ownKeys calls →
      (tx.tenant, tx.derivedKey i) ∉ ownKeys (calls ++ [(moment, .commit tx actor)]) := by
    intro i hi hmem
    unfold ownKeys at hi hmem
    rw [List.filterMap_append, List.mem_append] at hmem
    rcases hmem with hmem | hmem
    · exact hi hmem
    · have heq : (tx.tenant, tx.derivedKey i) = (tx.tenant, tx.id) := by
        simpa [Call.key?] using hmem
      exact tx.derivedKey_ne_id i (Prod.mk.inj heq).2
  rw [List.map_append, List.pairwise_append] at hinstants
  obtain ⟨hearlier, -, hbefore⟩ := hinstants
  have hsheltered : s.Sheltered (ownKeys (calls ++ [(moment, .commit tx actor)]))
      moment.instant := by
    refine .of_run h (fun call hmem => hapart.apart (List.mem_append_left _ hmem)) hearlier ?_
    intro call hmem
    exact hbefore _ (List.mem_map_of_mem hmem) _ (by simp)
  by_cases hlive : ∃ receipt, s.reply? tx.tenant tx.id moment.instant = some (.committed receipt)
  · obtain ⟨receipt, hlive⟩ := hlive
    obtain ⟨e, hmem, hkey, hvalue⟩ := Cache.exists_of_get_eq_some hlive
    exact .inl ⟨receipt, hlive, commit_of_receipt hlive actor, (commit_of_reply? hlive actor).2,
      hkey ▸ h.issued rfl hmem hvalue⟩
  · have hnone := (hsheltered.receipt_or_none hid).resolve_left hlive
    refine .inr ⟨fun i hi => hnone i (hderived i hi), fun hunknown => ?_, fun reply hfound => ?_⟩
    · refine commitsAnew_of_fresh actor fun key hkey => ?_
      simp only [Transaction.keys, List.mem_cons, List.mem_map, List.mem_range] at hkey
      rcases hkey with rfl | ⟨i, hi, rfl⟩
      · exact hunknown
      · exact hnone i (hcommit.derivedKey_not_mem hi)
    · refine ⟨commit_of_not_isReceipt hfound ?_ actor, (commit_of_reply? hfound actor).2⟩
      rintro ⟨receipt, rfl⟩
      exact hlive ⟨receipt, hfound⟩

/-- A store with room for two replies. -/
def cramped : Store :=
  Store.new 500 2 100 "tenantId"

/-- Make a document anew, whatever was at its path, in three writes. -/
def resetting : Transaction where
  id := "t"
  tenant := "T1"
  writes := [.delete orderPath none, .create orderPath (.object [("total", .ofNat 3)]),
    .update orderPath (.object [("state", .string "open")]) none true]
  reads := []
  limit := 500

/-- A commit, its retry, two writes whose replies displace the receipt, and one more retry. -/
def resettingCalls : List (Moment × Call) :=
  [(⟨0, fun _ => ⟨1⟩⟩, .commit resetting "ann"),
   (⟨1, fun _ => ⟨2⟩⟩, .commit resetting "ann"),
   (⟨2, fun _ => ⟨3⟩⟩, .create "T1" "ann" "orders/O2" (.object []) (some "a")),
   (⟨3, fun _ => ⟨4⟩⟩, .create "T1" "ann" "orders/O3" (.object []) (some "b")),
   (⟨4, fun _ => ⟨5⟩⟩, .commit resetting "ann")]

/--
With room for two replies the results of three writes displace each other, and
still the first retry gets the receipt; a later one makes the document anew.
-/
theorem cramped_replays_or_starts_over :
    KeysApart resettingCalls ∧
    (cramped.afterCalls (resettingCalls.take 1)).reply? "T1" "t#0" 1 = none ∧
    (∃ receipt, Replays cramped (resettingCalls.take 1) (cramped.afterCalls (resettingCalls.take 1))
      ⟨1, fun _ => ⟨2⟩⟩ resetting "ann" receipt) ∧
    (cramped.afterCalls (resettingCalls.take 4)).CommitsAnew ⟨4, fun _ => ⟨5⟩⟩ resetting "ann" := by
  have hrun : ∀ calls, Run cramped calls (cramped.afterCalls calls) :=
    fun calls => Run.start.afterCalls calls
  have hapart : KeysApart
      (resettingCalls.take 1 ++ [(⟨1, fun _ => ⟨2⟩⟩, Call.commit resetting "ann")]) := by
    decide +kernel
  have hapart' : KeysApart
      (resettingCalls.take 4 ++ [(⟨4, fun _ => ⟨5⟩⟩, Call.commit resetting "ann")]) := by
    decide +kernel
  refine ⟨by decide +kernel, by decide +kernel, ?_, ?_⟩
  · obtain ⟨receipt, hlive⟩ : ∃ receipt,
        (cramped.afterCalls (resettingCalls.take 1)).reply? "T1" "t" 1 =
          some (.committed receipt) :=
      ⟨_, rfl⟩
    rcases (hrun _).commit_replays_or_starts_over hapart (by decide +kernel) with hreplays | hover
    · exact hreplays
    · have hrefused := (hover.refused _ hlive).1
      rw [commit_of_receipt hlive] at hrefused
      cases hrefused
  · have hunknown : (cramped.afterCalls (resettingCalls.take 4)).reply? "T1" "t" 4 = none := by
      decide +kernel
    rcases (hrun _).commit_replays_or_starts_over hapart' (by decide +kernel) with
      ⟨receipt, hreplays⟩ | hover
    · have hfound := hunknown.symm.trans hreplays.live
      cases hfound
    · exact hover.anew hunknown

end Store
end DocumentStore
