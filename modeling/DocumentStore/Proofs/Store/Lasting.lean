import DocumentStore.Proofs.Store.Receipts

/-!
# Replies that last

While the reply of a key lives, no call records another one under the key: a
call under the key itself is answered with the reply, and a commit that derives
the key keeps the recorded result or is refused.  So whoever finds a reply under
a key again and again finds the same one, unless there was a time at which none
was to be found.
-/

namespace DocumentStore
namespace Store

variable {s : Store} {moment : Moment} {key : String × String} {reply : Reply}

/-! ### Live replies -/

theorem known?_of_reply?
    {instant : Nat}
    (h : s.reply? key.1 key.2 instant = some reply) :
    s.known? key = some reply := by
  have hfound : (s.replies.get key instant).1 = some reply := h
  rw [Cache.get_fst, Option.map_eq_some_iff] at hfound
  obtain ⟨e, hlive, hvalue⟩ := hfound
  exact Option.map_eq_some_iff.2 ⟨e, (Option.filter_eq_some_iff.1 hlive).1, hvalue⟩

/-- Looking up the replies to the writes of a transaction does not change what is found. -/
theorem reply?_derivedReplies
    (tx : Transaction)
    (instant : Nat)
    (writes : List Write)
    (position : Nat)
    (s : Store)
    (key : String × String) :
    (derivedReplies tx instant position writes s).2.reply? key.1 key.2 instant =
      s.reply? key.1 key.2 instant := by
  refine derivedReplies_preserves
    (motive := fun t => t.reply? key.1 key.2 instant = s.reply? key.1 key.2 instant)
    writes position s ?_ rfl
  intro t i _ _ ht
  rw [← ht]
  exact Cache.get_fst_get t.replies (tx.tenant, tx.derivedKey i) key instant

theorem known?_sweep_of_reply?
    {instant : Nat}
    (h : s.reply? key.1 key.2 instant = some reply) :
    (s.sweep instant).2.known? key = some reply := by
  have hfound : (s.replies.get key instant).1 = some reply := h
  rw [Cache.get_fst, Option.map_eq_some_iff] at hfound
  obtain ⟨e, hfilter, hvalue⟩ := hfound
  obtain ⟨hentry, hlive⟩ := Option.filter_eq_some_iff.1 hfilter
  exact Option.map_eq_some_iff.2
    ⟨e, Cache.entryAt?_sweep_of_live hentry (by simpa using hlive), hvalue⟩

/-! ### Calls while a reply lives -/

/-- No other reply is recorded under a key. -/
def OnlyReply
    (s : Store)
    (key : String × String)
    (reply : Reply) :
    Prop :=
  ∀ other, s.known? key = some other → other = reply

namespace OnlyReply

theorem of_known?
    (h : s.known? key = some reply) :
    s.OnlyReply key reply := by
  intro other hother
  rw [h] at hother
  exact (Option.some.inj hother).symm

theorem reply?_eq
    {instant : Nat}
    (h : s.OnlyReply key reply)
    (hlive : s.reply? key.1 key.2 instant ≠ none) :
    s.reply? key.1 key.2 instant = some reply := by
  obtain ⟨found, hfound⟩ := Option.ne_none_iff_exists'.1 hlive
  rw [hfound, h found (known?_of_reply? hfound)]

theorem imp
    {s' : Store}
    (h : s.OnlyReply key reply)
    (hknown : ∀ other, s'.known? key = some other → s.known? key = some other) :
    s'.OnlyReply key reply :=
  fun other hother => h other (hknown other hother)

end OnlyReply

/-- A reply that is known before the writes of a commit stays the only one under its key. -/
theorem Prepared.onlyReply_performAll
    {tx : Transaction}
    {actor : String}
    {answer : Except StoreError (List WriteResult)}
    {s' after : Store}
    {priors : List (Option WriteResult)}
    (h : Prepared s tx priors s')
    (hrun : performAll tx moment actor 0 (tx.writes.zip priors) s' = (answer, after))
    (hknown : s'.known? key = some reply) :
    after.OnlyReply key reply := by
  have hpreserved := performAll_preserves_pending tx moment actor
    (motive := fun t => t.OnlyReply key reply) (fun _ _ ht => ht) (tx.writes.zip priors) 0 s' ?_
    h.members (.of_known? hknown)
  · rw [hrun] at hpreserved
    exact hpreserved
  · intro t t' i write now result hpending ht _ hperformed
    have hkey : key ≠ (tx.tenant, tx.derivedKey (0 + i)) := by
      rintro rfl
      rw [h.members i write hpending] at hknown
      cases hknown
    refine ht.imp fun other hother => ?_
    rw [← known?_congr hperformed.replies_eq]
    exact known?_of_known?_record hkey hother

/-- While a reply lives, a commit leaves it the only one. -/
theorem onlyReply_commit
    (h : s.reply? key.1 key.2 moment.instant = some reply)
    (tx : Transaction)
    (actor : String) :
    (s.commit moment tx actor).2.OnlyReply key reply := by
  have hfirst := (s.looked_lookupReply tx.tenant tx.id moment.instant).known key
  have hunknown := @known?_lookupReply_of_eq_none s tx.tenant tx.id moment.instant
  have hlive : (s.lookupReply tx.tenant tx.id moment.instant).2.reply? key.1 key.2
      moment.instant = some reply :=
    (Cache.get_fst_get s.replies (tx.tenant, tx.id) key moment.instant).trans h
  have hmembers := fun s' => looked_derivedReplies tx moment.instant tx.writes 0 s'
  have hlives := fun s' => reply?_derivedReplies tx moment.instant tx.writes 0 s' key
  have honly : s.OnlyReply key reply := .of_known? (known?_of_reply? h)
  have hcommitted := s.committed_commit moment tx actor
  generalize s.commit moment tx actor = response at hcommitted ⊢
  obtain ⟨answer, final⟩ := response
  cases hcommitted with
  | answered hlookup =>
      rw [hlookup] at hfirst
      exact honly.imp hfirst
  | refused hlookup hkind =>
      rw [hlookup] at hfirst
      exact honly.imp hfirst
  | @memberRefused _ s' _ hlookup hderived =>
      have hmore := (hmembers s').known key
      rw [hlookup] at hfirst
      rw [hderived] at hmore
      exact (honly.imp hfirst).imp hmore
  | @failed _ s' _ _ hlookup hderived hrefusal =>
      have hmore := (hmembers s').known key
      rw [hlookup] at hfirst
      rw [hderived] at hmore
      exact (honly.imp hfirst).imp hmore
  | @carriedOut _ s' s'' after priors hlookup hderived hchecked hrun =>
      have hsecond := hlives s'
      rw [hlookup] at hunknown hlive
      rw [hderived, hlive] at hsecond
      have hprepared := prepared_of_derivedReplies (hunknown rfl) hderived
      have hafter := hprepared.onlyReply_performAll hrun (known?_of_reply? hsecond)
      have hkey : key ≠ (tx.tenant, tx.id) := by
        rintro rfl
        rw [reply?, hlookup] at h
        cases h
      exact hafter.imp fun other => known?_of_known?_record hkey

/-- While a reply lives, a single write leaves it the only one. -/
theorem onlyReply_write
    (h : s.reply? key.1 key.2 moment.instant = some reply)
    (tenant actor : String)
    (write : Write)
    (replyKey : Option String) :
    (s.write moment tenant actor write replyKey).2.OnlyReply key reply := by
  intro other hother
  rcases known?_of_known?_write hother with hknown | ⟨hnone, -⟩
  · exact OnlyReply.of_known? (known?_of_reply? h) other hknown
  · rw [h] at hnone
    cases hnone

/-- While a reply lives, a call leaves it the only one. -/
theorem onlyReply_serve
    (h : s.reply? key.1 key.2 moment.instant = some reply)
    (call : Call) :
    (s.serve moment call).2.OnlyReply key reply := by
  have hserved := s.served_serve moment call
  generalize s.serve moment call = response at hserved ⊢
  cases hserved with
  | pathless hpath e =>
      exact .of_known? (known?_of_reply? h)
  | write hwrites =>
      exact onlyReply_write h _ _ _ _
  | commit tx actor =>
      exact onlyReply_commit h tx actor
  | sweep =>
      exact .of_known? (known?_sweep_of_reply? h)

end Store
end DocumentStore
