import DocumentStore.Proofs.Store.Calls
import DocumentStore.Proofs.Store.DerivedKeys

/-!
# Known keys

A key is known when a reply is recorded under it.  A reply is only ever
recorded under a key that a lookup has just found unknown.  So the replies of
known keys stay as they are, unless the table drops some, which its statistics
tell.
-/

namespace DocumentStore
namespace Store

/-- The reply recorded under a key of a tenant, live or not. -/
def known?
    (s : Store)
    (key : String × String) :
    Option Reply :=
  s.replies.value? key

/-- How many replies were dropped so far. -/
def dropped (s : Store) : Nat :=
  s.replies.dropped

/-- Unless replies were dropped, all known keys are known with the same replies. -/
structure Remembers (s s' : Store) : Prop where
  dropped_le : s.dropped ≤ s'.dropped
  keeps :
    s'.dropped = s.dropped →
      ∀ key reply, s.known? key = some reply → s'.known? key = some reply

namespace Remembers

theorem of_replies_eq
    {s s' : Store}
    (h : s'.replies = s.replies) :
    Remembers s s' where
  dropped_le := Nat.le_of_eq (congrArg Cache.dropped h).symm
  keeps := by
    intro _ key reply hknown
    unfold known? at hknown ⊢
    rw [h, hknown]

theorem trans
    {s s' s'' : Store}
    (h : Remembers s s')
    (h' : Remembers s' s'') :
    Remembers s s'' where
  dropped_le := Nat.le_trans h.dropped_le h'.dropped_le
  keeps := by
    intro heq key reply hknown
    have hfirst := h.dropped_le
    have hsecond := h'.dropped_le
    exact h'.keeps (by omega) key reply (h.keeps (by omega) key reply hknown)

theorem dropped_eq_zero
    {s s' : Store}
    (h : Remembers s s')
    (hzero : s'.dropped = 0) :
    s.dropped = 0 :=
  Nat.le_zero.1 (hzero ▸ h.dropped_le)

end Remembers

theorem known?_congr
    {s s' : Store}
    (h : s'.replies = s.replies)
    (key : String × String) :
    s'.known? key = s.known? key := by
  unfold known?
  rw [h]

theorem known?_eq_none_of_imp
    {s s' : Store}
    {key : String × String}
    (h : ∀ reply, s'.known? key = some reply → s.known? key = some reply)
    (hunknown : s.known? key = none) :
    s'.known? key = none := by
  cases hknown : s'.known? key with
  | none =>
      rfl
  | some reply =>
      rw [h reply hknown] at hunknown
      cases hunknown

/-! ### Looking up and recording -/

variable {s : Store} {tenant key : String} {instant : Nat}

theorem lookupReply_fst_of_dropped_eq
    (h : (s.lookupReply tenant key instant).2.dropped = s.dropped) :
    (s.lookupReply tenant key instant).1 = s.known? (tenant, key) :=
  Cache.get_fst_of_dropped_eq h

theorem known?_of_known?_lookupReply
    {other : String × String}
    {reply : Reply}
    (h : (s.lookupReply tenant key instant).2.known? other = some reply) :
    s.known? other = some reply := by
  obtain ⟨e, he, rfl⟩ := Option.map_eq_some_iff.1 h
  exact Option.map_eq_some_iff.2 ⟨e, Cache.entryAt?_of_entryAt?_get he, rfl⟩

theorem known?_lookupReply_of_eq_none
    (h : (s.lookupReply tenant key instant).1 = none) :
    (s.lookupReply tenant key instant).2.known? (tenant, key) = none := by
  unfold known? Cache.value?
  exact Option.map_eq_none_iff.2 (Cache.entryAt?_get_of_eq_none h)

theorem known?_lookupReply_of_eq_some
    {reply : Reply}
    (h : (s.lookupReply tenant key instant).1 = some reply) :
    (s.lookupReply tenant key instant).2.known? (tenant, key) = some reply := by
  have hkept : (s.replies.get (tenant, key) instant).2.entryAt? (tenant, key) =
      s.replies.entryAt? (tenant, key) :=
    Cache.entryAt?_get_of_eq_some h
  have hfound : (s.replies.get (tenant, key) instant).1 = some reply := h
  rw [Cache.get_fst, Option.map_eq_some_iff] at hfound
  obtain ⟨e, hfilter, hvalue⟩ := hfound
  refine Option.map_eq_some_iff.2 ⟨e, ?_, hvalue⟩
  exact hkept.trans (Option.filter_eq_some_iff.1 hfilter).1

theorem remembers_lookupReply
    (s : Store)
    (tenant key : String)
    (instant : Nat) :
    Remembers s (s.lookupReply tenant key instant).2 where
  dropped_le := Cache.dropped_le_get s.replies (tenant, key) instant
  keeps := by
    intro heq other reply hknown
    obtain ⟨e, he, rfl⟩ := Option.map_eq_some_iff.1 hknown
    exact Option.map_eq_some_iff.2 ⟨e, Cache.entryAt?_get_of_dropped_eq heq he, rfl⟩

/-- A sweep remembers. -/
theorem remembers_sweep
    (s : Store)
    (instant : Nat) :
    Remembers s (s.sweep instant).2 where
  dropped_le := Cache.dropped_le_sweep s.replies instant
  keeps := by
    intro heq other reply hknown
    have hentries : (s.replies.sweep instant).2.entries = s.replies.entries :=
      Cache.entries_sweep_of_dropped_eq heq
    unfold known? Cache.value? Cache.entryAt? at hknown ⊢
    unfold Store.sweep
    rw [hentries, hknown]

/-- A recorded reply is known. -/
theorem known?_record_self
    (s : Store)
    (tenant key : String)
    (reply : Reply)
    (instant : Nat) :
    (s.record tenant key reply instant).known? (tenant, key) = some reply := by
  have hentry := Cache.entryAt?_insert_self s.replies (tenant, key) reply instant
  exact Option.map_eq_some_iff.2 ⟨_, hentry, rfl⟩

theorem known?_of_known?_record
    {other : String × String}
    {reply reply' : Reply}
    (hne : other ≠ (tenant, key))
    (h : (s.record tenant key reply' instant).known? other = some reply) :
    s.known? other = some reply := by
  obtain ⟨e, he, rfl⟩ := Option.map_eq_some_iff.1 h
  exact Option.map_eq_some_iff.2 ⟨e, Cache.entryAt?_of_entryAt?_insert hne he, rfl⟩

/-- Recording a reply under an unknown key remembers. -/
theorem remembers_record
    (hunknown : s.known? (tenant, key) = none)
    (reply : Reply)
    (instant : Nat) :
    Remembers s (s.record tenant key reply instant) where
  dropped_le := Cache.dropped_le_insert s.replies (tenant, key) reply instant
  keeps := by
    intro heq other reply' hknown
    have hne : other ≠ (tenant, key) := by
      rintro rfl
      rw [hunknown] at hknown
      cases hknown
    have hother : (s.replies.insert (tenant, key) reply instant).2.entryAt? other =
        s.replies.entryAt? other :=
      Cache.entryAt?_insert_of_dropped_eq hne heq
    obtain ⟨e, he, rfl⟩ := Option.map_eq_some_iff.1 hknown
    exact Option.map_eq_some_iff.2 ⟨e, hother.trans he, rfl⟩

/-- Replies were only looked up: none was added, and no key has become known. -/
structure Looked (s s' : Store) : Prop where
  consulted : Consulted s s'
  remembers : Remembers s s'
  known : ∀ key reply, s'.known? key = some reply → s.known? key = some reply

theorem Looked.refl (s : Store) : Looked s s :=
  ⟨.refl s, .of_replies_eq rfl, fun _ _ h => h⟩

theorem Looked.trans
    {s' s'' : Store}
    (h : Looked s s')
    (h' : Looked s' s'') :
    Looked s s'' where
  consulted := h.consulted.trans h'.consulted
  remembers := h.remembers.trans h'.remembers
  known key reply hknown := h.known key reply (h'.known key reply hknown)

theorem Looked.known?_eq
    {s' : Store}
    (h : Looked s s')
    (hkept : s'.dropped = s.dropped)
    (key : String × String) :
    s'.known? key = s.known? key :=
  Option.ext fun reply => ⟨h.known key reply, h.remembers.keeps hkept key reply⟩

theorem looked_lookupReply
    (s : Store)
    (tenant key : String)
    (instant : Nat) :
    Looked s (s.lookupReply tenant key instant).2 :=
  ⟨s.consulted_lookupReply tenant key instant, s.remembers_lookupReply tenant key instant,
    fun _ _ => known?_of_known?_lookupReply⟩

/-! ### Single writes -/

theorem Performed.replies_eq
    {s' : Store}
    {write : Write}
    {origin : Origin}
    {now : Timestamp}
    {result : WriteResult}
    (h : Performed s tenant write origin now result s') :
    s'.replies = s.replies := by
  cases h <;> rfl

theorem WrittenNow.replies_eq
    {s' : Store}
    {actor : String}
    {write : Write}
    {key : Option String}
    {answer : Except StoreError WriteResult}
    (h : WrittenNow s tenant actor write key answer s') :
    s'.replies = s.replies := by
  cases h with
  | failed e clock =>
      rfl
  | performed hperformed =>
      exact hperformed.replies_eq
  | absent hkind hnone =>
      rfl

/-- After it has looked for a reply, a write under a key remembers. -/
theorem remembers_lookupReply_write
    (s : Store)
    (moment : Moment)
    (tenant actor : String)
    (write : Write)
    (key : String) :
    Remembers (s.lookupReply tenant key moment.instant).2
      (s.write moment tenant actor write (some key)).2 := by
  have hunknown := @known?_lookupReply_of_eq_none s tenant key moment.instant
  have hwritten := s.written_write moment tenant actor write key
  generalize s.write moment tenant actor write (some key) = response at hwritten ⊢
  obtain ⟨answer, final⟩ := response
  cases hwritten with
  | answered hlookup =>
      rw [hlookup]
      exact .of_replies_eq rfl
  | refused hlookup hkind =>
      rw [hlookup]
      exact .of_replies_eq rfl
  | failed hlookup hrun =>
      rw [hlookup]
      exact .of_replies_eq hrun.replies_eq
  | @carriedOut _ s' after hlookup hrun =>
      rw [hlookup] at hunknown ⊢
      have hafter : after.known? (tenant, key) = none := by
        rw [known?_congr hrun.replies_eq]
        exact hunknown rfl
      exact (Remembers.of_replies_eq hrun.replies_eq).trans (remembers_record hafter _ _)

/-- A single write remembers. -/
theorem remembers_write
    (s : Store)
    (moment : Moment)
    (tenant actor : String)
    (write : Write)
    (key : Option String) :
    Remembers s (s.write moment tenant actor write key).2 := by
  cases key with
  | none =>
      exact .of_replies_eq (s.writtenNow_writeNow moment tenant actor write none).replies_eq
  | some k =>
      exact (s.remembers_lookupReply tenant k moment.instant).trans
        (s.remembers_lookupReply_write moment tenant actor write k)

/-! ### Commits -/

/-- The replies to the writes of a transaction are only looked up. -/
theorem looked_derivedReplies
    (tx : Transaction)
    (instant : Nat)
    (writes : List Write)
    (position : Nat)
    (s : Store) :
    Looked s (derivedReplies tx instant position writes s).2 := by
  refine derivedReplies_preserves (motive := Looked s) writes position s ?_ (.refl s)
  intro t i _ _ ht
  exact ht.trans (t.looked_lookupReply tx.tenant (tx.derivedKey i) instant)

/-- The derived keys for which no result was found are unknown. -/
theorem known?_of_derivedReplies_eq_ok
    {tx : Transaction}
    {position : Nat}
    {writes : List Write}
    {s' : Store}
    {priors : List (Option WriteResult)}
    (h : derivedReplies tx instant position writes s = (.ok priors, s'))
    {i : Nat}
    (hprior : priors[i]? = some none) :
    s'.known? (tx.tenant, tx.derivedKey (position + i)) = none := by
  induction writes generalizing position s priors i with
  | nil =>
      cases h
      cases hprior
  | cons write rest ih =>
      obtain ⟨first, later, between, hlookup, hrest, rfl⟩ := exists_of_derivedReplies_cons h
      cases i with
      | zero =>
          obtain rfl : first = none := Option.some.inj hprior
          have hunknown := @known?_lookupReply_of_eq_none s tx.tenant (tx.derivedKey position)
            instant
          have hlooked := looked_derivedReplies tx instant rest (position + 1) between
          rw [hlookup] at hunknown
          rw [hrest] at hlooked
          exact known?_eq_none_of_imp (hlooked.known _) (hunknown rfl)
      | succ i =>
          rw [Nat.add_comm i 1, ← Nat.add_assoc]
          exact ih hrest hprior

/-- Unless replies are dropped, the results that are found are those that are known. -/
theorem known?_of_derivedReplies
    {tx : Transaction}
    {position : Nat}
    {writes : List Write}
    {s' : Store}
    {priors : List (Option WriteResult)}
    (h : derivedReplies tx instant position writes s = (.ok priors, s'))
    (hkept : s'.dropped = s.dropped)
    {i : Nat}
    {prior : Option WriteResult}
    (hprior : priors[i]? = some prior) :
    s.known? (tx.tenant, tx.derivedKey (position + i)) = prior.map .member := by
  induction writes generalizing position s priors i with
  | nil =>
      cases h
      cases hprior
  | cons write rest ih =>
      obtain ⟨first, later, between, hlookup, hrest, rfl⟩ := exists_of_derivedReplies_cons h
      have hfirst := s.looked_lookupReply tx.tenant (tx.derivedKey position) instant
      have hfound := @lookupReply_fst_of_dropped_eq s tx.tenant (tx.derivedKey position) instant
      have hsecond := looked_derivedReplies tx instant rest (position + 1) between
      rw [hlookup] at hfirst hfound
      rw [hrest] at hsecond
      have hle : s.dropped ≤ between.dropped := hfirst.remembers.dropped_le
      have hle' : between.dropped ≤ s'.dropped := hsecond.remembers.dropped_le
      have hsame : between.dropped = s.dropped := by omega
      cases i with
      | zero =>
          obtain rfl : first = prior := Option.some.inj hprior
          exact (hfound hsame).symm
      | succ i =>
          rw [Nat.add_comm i 1, ← Nat.add_assoc, ← hfirst.known?_eq hsame]
          exact ih hrest (by omega) hprior

/-- The keys of the writes that a commit still has to carry out are unknown. -/
def Unknown
    (s : Store)
    (tx : Transaction)
    (position : Nat)
    (pending : List (Write × Option WriteResult)) :
    Prop :=
  ∀ i write, pending[i]? = some (write, none) →
    s.known? (tx.tenant, tx.derivedKey (position + i)) = none

/-- The keys of the later writes are unknown, too. -/
theorem Unknown.tail
    {tx : Transaction}
    {position : Nat}
    {head : Write × Option WriteResult}
    {rest : List (Write × Option WriteResult)}
    (h : s.Unknown tx position (head :: rest)) :
    s.Unknown tx (position + 1) rest := by
  intro i write hi
  rw [Nat.add_assoc, Nat.add_comm 1 i]
  exact h (i + 1) write hi

/-- The keys of the later writes stay unknown when the result of one is recorded. -/
theorem Unknown.record
    {tx : Transaction}
    {position : Nat}
    {pending : List (Write × Option WriteResult)}
    (h : s.Unknown tx (position + 1) pending)
    (reply : Reply)
    (instant : Nat) :
    (s.record tx.tenant (tx.derivedKey position) reply instant).Unknown tx (position + 1)
      pending := by
  intro i write hi
  have hne : (tx.tenant, tx.derivedKey (position + 1 + i)) ≠
      (tx.tenant, tx.derivedKey position) := by
    intro heq
    have hposition := (Transaction.derivedKey_inj (Prod.mk.inj heq).2).2
    omega
  exact known?_eq_none_of_imp (fun _ => known?_of_known?_record hne) (h i write hi)

/--
What the clock does not matter to, and each pending write under its unknown key
keeps, the writes of a commit keep.
-/
theorem performAll_preserves_pending
    {motive : Store → Prop}
    (tx : Transaction)
    (moment : Moment)
    (actor : String)
    (htick : ∀ (s : Store) (now : Timestamp), motive s → motive { s with clock := some now })
    (pending : List (Write × Option WriteResult)) :
    ∀ (start : Nat) (s : Store),
      (∀ (s s' : Store) (i : Nat) (write : Write) (now : Timestamp) (result : WriteResult),
        pending[i]? = some (write, none) → motive s →
        s.known? (tx.tenant, tx.derivedKey (start + i)) = none →
        Performed s tx.tenant write ⟨actor, some (tx.derivedKey (start + i)), some tx.id⟩ now result
          s' →
        motive (s'.record tx.tenant (tx.derivedKey (start + i)) (.member result)
          moment.instant)) →
      s.Unknown tx start pending → motive s →
      motive (performAll tx moment actor start pending s).2 := by
  induction pending with
  | nil =>
      intro start s _ _ hs
      exact hs
  | cons head rest ih =>
      intro start s hwrite hunknown hs
      obtain ⟨write, prior⟩ := head
      cases prior with
      | some prior =>
          rw [performAll_cons_some]
          refine ih (start + 1) s (fun t t' i => ?_) hunknown.tail hs
          rw [Nat.add_assoc, Nat.add_comm 1 i]
          exact hwrite t t' (i + 1)
      | none =>
          rw [performAll_cons_none]
          dsimp only
          have hticked := htick s (timeAfter s.clock (moment.wall start)) hs
          split
          · exact hticked
          · next result s' hperform =>
              have hperformed := performed_of_perform hperform
              have htail : s'.Unknown tx (start + 1) rest := by
                intro i write' hi
                rw [known?_congr hperformed.replies_eq]
                exact hunknown.tail i write' hi
              refine ih (start + 1) _ (fun t t' i => ?_) (htail.record _ _) ?_
              · rw [Nat.add_assoc, Nat.add_comm 1 i]
                exact hwrite t t' (i + 1)
              · exact hwrite _ s' 0 write _ result rfl hticked (hunknown 0 write rfl) hperformed

/--
What the clock does not matter to, and each write under an unknown key keeps,
the writes of a commit keep.
-/
theorem performAll_preserves
    {motive : Store → Prop}
    (tx : Transaction)
    (moment : Moment)
    (actor : String)
    (htick : ∀ (s : Store) (now : Timestamp), motive s → motive { s with clock := some now })
    (pending : List (Write × Option WriteResult)) :
    ∀ (start : Nat) (s : Store),
      (∀ (s s' : Store) (position : Nat) (write : Write) (now : Timestamp) (result : WriteResult),
        start ≤ position → position < start + pending.length → motive s →
        s.known? (tx.tenant, tx.derivedKey position) = none →
        Performed s tx.tenant write ⟨actor, some (tx.derivedKey position), some tx.id⟩ now result
          s' →
        motive (s'.record tx.tenant (tx.derivedKey position) (.member result) moment.instant)) →
      s.Unknown tx start pending → motive s →
      motive (performAll tx moment actor start pending s).2 := by
  intro start s hwrite
  refine performAll_preserves_pending tx moment actor htick pending start s ?_
  intro t t' i write now result hi
  obtain ⟨hlength, -⟩ := List.getElem?_eq_some_iff.1 hi
  exact hwrite t t' (start + i) write now result (by omega) (by omega)

/-- A lookup of all derived keys leaves those unknown for which nothing was found. -/
theorem unknown_of_derivedReplies_eq_ok
    {tx : Transaction}
    {s' : Store}
    {priors : List (Option WriteResult)}
    (h : derivedReplies tx instant 0 tx.writes s = (.ok priors, s')) :
    s'.Unknown tx 0 (tx.writes.zip priors) := by
  intro i write hi
  exact known?_of_derivedReplies_eq_ok h (List.getElem?_zip_eq_some.1 hi).2

/-- What a write under an unknown key does to the replies when its own is recorded. -/
theorem Performed.remembers_record
    {s' : Store}
    {write : Write}
    {origin : Origin}
    {now : Timestamp}
    {result : WriteResult}
    (h : Performed s tenant write origin now result s')
    (hunknown : s.known? (tenant, key) = none)
    (reply : Reply)
    (instant : Nat) :
    Remembers s (s'.record tenant key reply instant) := by
  have hafter : s'.known? (tenant, key) = none := by
    rw [known?_congr h.replies_eq]
    exact hunknown
  exact (Remembers.of_replies_eq h.replies_eq).trans (Store.remembers_record hafter reply instant)

/-- The writes of a commit remember when their keys are unknown. -/
theorem remembers_performAll
    {tx : Transaction}
    {position : Nat}
    {pending : List (Write × Option WriteResult)}
    (h : s.Unknown tx position pending)
    (moment : Moment)
    (actor : String) :
    Remembers s (performAll tx moment actor position pending s).2 := by
  refine performAll_preserves (motive := Remembers s) tx moment actor ?_ pending position s ?_ h
    (.of_replies_eq rfl)
  · intro t now ht
    exact ht.trans (.of_replies_eq rfl)
  · intro t t' position write now result _ _ ht hunknown hperformed
    exact ht.trans (hperformed.remembers_record hunknown _ _)

/--
The store in which the writes of a commit are carried out, after the replies to
them were looked up: its id and the keys of the pending writes are unknown, and
the results that were found are those that are known.
-/
structure Prepared
    (s : Store)
    (tx : Transaction)
    (priors : List (Option WriteResult))
    (s' : Store) :
    Prop where
  looked : Looked s s'
  id : s'.known? (tx.tenant, tx.id) = none
  members : s'.Unknown tx 0 (tx.writes.zip priors)
  found :
    s'.dropped = s.dropped → ∀ (i : Nat) (prior : Option WriteResult), priors[i]? = some prior →
      s.known? (tx.tenant, tx.derivedKey i) = prior.map .member

/-- A commit with an unknown id that finds no other replies is prepared. -/
theorem prepared_of_derivedReplies
    {tx : Transaction}
    {s' : Store}
    {priors : List (Option WriteResult)}
    (hunknown : s.known? (tx.tenant, tx.id) = none)
    (hderived : derivedReplies tx instant 0 tx.writes s = (.ok priors, s')) :
    Prepared s tx priors s' := by
  have hlooked := looked_derivedReplies tx instant tx.writes 0 s
  rw [hderived] at hlooked
  exact
    { looked := hlooked
      id := known?_eq_none_of_imp (hlooked.known _) hunknown
      members := unknown_of_derivedReplies_eq_ok hderived
      found := by
        intro hkept i prior hprior
        have hknown := known?_of_derivedReplies hderived hkept hprior
        rwa [Nat.zero_add] at hknown }

/-- What the writes of a prepared commit make known are derived keys with their results. -/
theorem Prepared.known?_performAll
    {moment : Moment}
    {tx : Transaction}
    {actor : String}
    {answer : Except StoreError (List WriteResult)}
    {s' after : Store}
    {priors : List (Option WriteResult)}
    (h : Prepared s tx priors s')
    (hrun : performAll tx moment actor 0 (tx.writes.zip priors) s' = (answer, after))
    {other : String × String}
    {reply : Reply}
    (hknown : after.known? other = some reply) :
    s'.known? other = some reply ∨
      ∃ i result, other = (tx.tenant, tx.derivedKey i) ∧ reply = .member result := by
  have hpreserved := performAll_preserves tx moment actor
    (motive := fun t => t.known? other = some reply → s'.known? other = some reply ∨
      ∃ i result, other = (tx.tenant, tx.derivedKey i) ∧ reply = .member result)
    (fun _ _ ht => ht) (tx.writes.zip priors) 0 s' ?_ h.members .inl
  · rw [hrun] at hpreserved
    exact hpreserved hknown
  · intro t t' position write now result _ _ ht _ hperformed hafter
    by_cases hother : other = (tx.tenant, tx.derivedKey position)
    · rw [hother, known?_record_self] at hafter
      exact .inr ⟨position, result, hother, (Option.some.inj hafter).symm⟩
    · have hbefore := known?_of_known?_record hother hafter
      rw [known?_congr hperformed.replies_eq] at hbefore
      exact ht hbefore

/-- The id of a prepared commit is unknown until its receipt is recorded. -/
theorem Prepared.known?_id
    {moment : Moment}
    {tx : Transaction}
    {actor : String}
    {answer : Except StoreError (List WriteResult)}
    {s' after : Store}
    {priors : List (Option WriteResult)}
    (h : Prepared s tx priors s')
    (hrun : performAll tx moment actor 0 (tx.writes.zip priors) s' = (answer, after)) :
    after.known? (tx.tenant, tx.id) = none := by
  refine known?_eq_none_of_imp (fun reply hknown => ?_) h.id
  rcases h.known?_performAll hrun hknown with hold | ⟨i, result, hkey, -⟩
  · exact hold
  · exact absurd (Prod.mk.inj hkey).2.symm (tx.derivedKey_ne_id i)

/-- The writes of a prepared commit remember, and so does recording its receipt. -/
theorem Prepared.remembers_record
    {moment : Moment}
    {tx : Transaction}
    {actor : String}
    {answer : Except StoreError (List WriteResult)}
    {s' after : Store}
    {priors : List (Option WriteResult)}
    (h : Prepared s tx priors s')
    (hrun : performAll tx moment actor 0 (tx.writes.zip priors) s' = (answer, after))
    (reply : Reply) :
    Remembers s' (after.record tx.tenant tx.id reply moment.instant) := by
  have hwrites := remembers_performAll h.members moment actor
  rw [hrun] at hwrites
  exact hwrites.trans (Store.remembers_record (h.known?_id hrun) reply moment.instant)

/-- After it has looked for its receipt, a commit looks up replies only, or is carried out. -/
inductive Concluded
    (s : Store)
    (moment : Moment)
    (tx : Transaction)
    (actor : String) :
    Except StoreError Receipt × Store → Prop
  | looked
      {answer : Except StoreError Receipt}
      {final : Store}
      (h : Looked (s.lookupReply tx.tenant tx.id moment.instant).2 final) :
      Concluded s moment tx actor (answer, final)
  | carriedOut
      {priors : List (Option WriteResult)}
      {s' after : Store}
      {results : List WriteResult}
      (hprepared : Prepared (s.lookupReply tx.tenant tx.id moment.instant).2 tx priors s')
      (hrun : performAll tx moment actor 0 (tx.writes.zip priors) s' = (.ok results, after)) :
      Concluded s moment tx actor
        (.ok ⟨tx.id, results⟩,
          after.record tx.tenant tx.id (.committed ⟨tx.id, results⟩) moment.instant)

/-- A commit concludes in one of the two ways. -/
theorem concluded_commit
    (s : Store)
    (moment : Moment)
    (tx : Transaction)
    (actor : String) :
    Concluded s moment tx actor (s.commit moment tx actor) := by
  have hunknown := @known?_lookupReply_of_eq_none s tx.tenant tx.id moment.instant
  have hderived := fun s' => looked_derivedReplies tx moment.instant tx.writes 0 s'
  have hlooked := @Concluded.looked s moment tx actor
  have hcarried := @Concluded.carriedOut s moment tx actor
  have hcommitted := s.committed_commit moment tx actor
  generalize s.commit moment tx actor = response at hcommitted ⊢
  obtain ⟨answer, final⟩ := response
  cases hcommitted with
  | answered heq =>
      rw [heq] at hlooked
      exact hlooked (.refl _)
  | refused heq hkind =>
      rw [heq] at hlooked
      exact hlooked (.refl _)
  | @memberRefused _ s' _ heq hfound =>
      have hmore := hderived s'
      rw [hfound] at hmore
      rw [heq] at hlooked
      exact hlooked hmore
  | @failed _ s' _ _ heq hfound hrefusal =>
      have hmore := hderived s'
      rw [hfound] at hmore
      rw [heq] at hlooked
      exact hlooked hmore
  | carriedOut heq hfound hchecked hrun =>
      rw [heq] at hunknown hcarried
      exact hcarried (prepared_of_derivedReplies (hunknown rfl) hfound) hrun

/-- After it has looked for its receipt, a commit remembers. -/
theorem remembers_lookupReply_commit
    (s : Store)
    (moment : Moment)
    (tx : Transaction)
    (actor : String) :
    Remembers (s.lookupReply tx.tenant tx.id moment.instant).2 (s.commit moment tx actor).2 := by
  have hconcluded := s.concluded_commit moment tx actor
  generalize s.commit moment tx actor = response at hconcluded ⊢
  cases hconcluded with
  | looked h =>
      exact h.remembers
  | carriedOut hprepared hrun =>
      exact hprepared.looked.remembers.trans (hprepared.remembers_record hrun _)

/-- If a commit drops nothing, then looking for its receipt drops nothing. -/
theorem lookupReply_commit_dropped_eq
    (s : Store)
    {moment : Moment}
    {tx : Transaction}
    {actor : String}
    (hkept : (s.commit moment tx actor).2.dropped = s.dropped) :
    (s.lookupReply tx.tenant tx.id moment.instant).2.dropped = s.dropped :=
  Nat.le_antisymm
    (hkept ▸ (s.remembers_lookupReply_commit moment tx actor).dropped_le)
    (s.remembers_lookupReply tx.tenant tx.id moment.instant).dropped_le

/-- A commit remembers. -/
theorem remembers_commit
    (s : Store)
    (moment : Moment)
    (tx : Transaction)
    (actor : String) :
    Remembers s (s.commit moment tx actor).2 :=
  (s.remembers_lookupReply tx.tenant tx.id moment.instant).trans
    (s.remembers_lookupReply_commit moment tx actor)

/-- A call remembers. -/
theorem remembers_serve
    (s : Store)
    (moment : Moment)
    (call : Call) :
    Remembers s (s.serve moment call).2 := by
  have hserved := s.served_serve moment call
  generalize s.serve moment call = response at hserved ⊢
  cases hserved with
  | pathless hpath e =>
      exact .of_replies_eq rfl
  | write hwrites =>
      exact s.remembers_write moment _ _ _ _
  | commit tx actor =>
      exact s.remembers_commit moment tx actor
  | sweep =>
      exact s.remembers_sweep moment.instant

/-- Calls remember. -/
theorem remembers_afterCalls
    (s : Store)
    (calls : List (Moment × Call)) :
    Remembers s (s.afterCalls calls) := by
  induction calls generalizing s with
  | nil =>
      exact .of_replies_eq rfl
  | cons call rest ih =>
      exact (s.remembers_serve call.1 call.2).trans (ih _)

end Store
end DocumentStore
