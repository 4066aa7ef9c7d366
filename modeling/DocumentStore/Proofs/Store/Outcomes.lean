import DocumentStore.Proofs.Store.Commit

/-!
# The ways in which keyed requests end

A write under a key, and a commit under its id, first look for a recorded
reply.  It answers the request or refuses its key; if there is none, the
request is checked and carried out, and its own reply is recorded when it
succeeds.  A commit that has passed its check does not fail.
-/

namespace DocumentStore

/-- The kind of the replies to single writes of a kind. -/
def ChangeKind.replyKind : ChangeKind → ReplyKind
  | create => .create
  | update => .update
  | delete => .delete

@[simp] theorem Reply.kind_single
    (kind : ChangeKind)
    (result : WriteResult) :
    (Reply.single kind result).kind = kind.replyKind := by
  cases kind <;> rfl

theorem ChangeKind.replyKind_inj
    {kind kind' : ChangeKind} :
    kind.replyKind = kind'.replyKind ↔ kind = kind' := by
  cases kind <;> cases kind' <;> simp [replyKind]

namespace Store

variable {s : Store} {moment : Moment}

/-- The ways in which a write at a time succeeds. -/
inductive Performed
    (s : Store)
    (tenant : String)
    (write : Write)
    (origin : Origin)
    (now : Timestamp) :
    WriteResult → Store → Prop
  | changed
      {change : Change}
      {documents : Documents}
      (happlied : Documents.Applied s.documents tenant now write (some change) documents) :
      Performed s tenant write origin now (resultOf (some change))
        ({ s with documents }.publish change origin now)
  | absent
      (hkind : write.kind = .delete)
      (hnone : s.find? tenant write.path = none) :
      Performed s tenant write origin now (.deleted false) s

/-- A write at a time succeeds in one of the listed ways. -/
theorem performed_of_perform
    {s s' : Store}
    {tenant : String}
    {write : Write}
    {origin : Origin}
    {now : Timestamp}
    {result : WriteResult}
    (h : s.perform tenant write origin now = .ok (result, s')) :
    Performed s tenant write origin now result s' := by
  unfold perform at h
  split at h
  · cases h
  · next documents happly =>
      cases h
      cases Documents.applied_of_apply happly with
      | absent hnone =>
          exact .absent rfl hnone
  · next change documents happly =>
      cases h
      exact .changed (Documents.applied_of_apply happly)

theorem resultOf_some_ne_deleted_false (change : Change) :
    resultOf (some change) ≠ .deleted false := by
  unfold resultOf
  dsimp only
  split <;> simp

/-- The ways in which a write carried out at once ends. -/
inductive WrittenNow
    (s : Store)
    (tenant actor : String)
    (write : Write)
    (key : Option String) :
    Except StoreError WriteResult → Store → Prop
  /-- Nothing changes but the clock. -/
  | failed
      (e : StoreError)
      (clock : Option Timestamp) :
      WrittenNow s tenant actor write key (.error e) { s with clock }
  /-- The clock is set before the write is carried out. -/
  | performed
      {clock : Option Timestamp}
      {now : Timestamp}
      {result : WriteResult}
      {after : Store}
      (h : Performed { s with clock } tenant write ⟨actor, key, none⟩ now result after) :
      WrittenNow s tenant actor write key (.ok result) after
  | absent
      (hkind : write.kind = .delete)
      (hnone : s.find? tenant write.path = none) :
      WrittenNow s tenant actor write key (.ok (.deleted false)) s

/-- A write carried out at once ends in one of the listed ways. -/
theorem writtenNow_writeNow
    (s : Store)
    (moment : Moment)
    (tenant actor : String)
    (write : Write)
    (key : Option String) :
    WrittenNow s tenant actor write key
      (s.writeNow moment tenant actor write key).1
      (s.writeNow moment tenant actor write key).2 := by
  unfold writeNow
  dsimp only
  split
  · split
    · exact .failed _ s.clock
    · exact .failed _ _
  · next after hperform =>
      have hperformed := performed_of_perform hperform
      generalize hresult : WriteResult.deleted false = result at hperformed
      cases hperformed with
      | changed happlied =>
          exact absurd hresult.symm (resultOf_some_ne_deleted_false _)
      | absent hkind hnone =>
          exact .absent hkind hnone
  · next result after _ hperform =>
      exact .performed (performed_of_perform hperform)

/-- The ways in which a write under a key ends. -/
inductive Written
    (s : Store)
    (moment : Moment)
    (tenant actor : String)
    (write : Write)
    (key : String) :
    Except StoreError WriteResult → Store → Prop
  | answered
      {result : WriteResult}
      {s' : Store}
      (hlookup : s.lookupReply tenant key moment.instant = (some (.single write.kind result), s')) :
      Written s moment tenant actor write key (.ok result) s'
  | refused
      {reply : Reply}
      {s' : Store}
      (hlookup : s.lookupReply tenant key moment.instant = (some reply, s'))
      (hkind : reply.kind ≠ write.kind.replyKind) :
      Written s moment tenant actor write key (.error (.keyReused key reply.kind)) s'
  | failed
      {e : StoreError}
      {s' after : Store}
      (hlookup : s.lookupReply tenant key moment.instant = (none, s'))
      (hrun : WrittenNow s' tenant actor write (some key) (.error e) after) :
      Written s moment tenant actor write key (.error e) after
  | carriedOut
      {result : WriteResult}
      {s' after : Store}
      (hlookup : s.lookupReply tenant key moment.instant = (none, s'))
      (hrun : WrittenNow s' tenant actor write (some key) (.ok result) after) :
      Written s moment tenant actor write key (.ok result)
        (after.record tenant key (.single write.kind result) moment.instant)

/-- A write under a key ends in one of the listed ways. -/
theorem written_write
    (s : Store)
    (moment : Moment)
    (tenant actor : String)
    (write : Write)
    (key : String) :
    Written s moment tenant actor write key
      (s.write moment tenant actor write (some key)).1
      (s.write moment tenant actor write (some key)).2 := by
  unfold Store.write
  dsimp only
  split
  · next kind result s' hlookup =>
      by_cases hkind : kind = write.kind
      · rw [if_pos hkind]
        subst hkind
        exact .answered hlookup
      · rw [if_neg hkind]
        refine .refused hlookup ?_
        rw [Reply.kind_single, Ne, ChangeKind.replyKind_inj]
        exact hkind
  · next reply s' hsingle hlookup =>
      refine .refused hlookup ?_
      cases reply with
      | single kind result =>
          exact absurd rfl (hsingle kind result)
      | member result =>
          cases write <;> simp [Reply.kind, Write.kind, ChangeKind.replyKind]
      | committed receipt =>
          cases write <;> simp [Reply.kind, Write.kind, ChangeKind.replyKind]
  · next s' hlookup =>
      have hnow := s'.writtenNow_writeNow moment tenant actor write (some key)
      split <;> rename_i hrun <;> rw [hrun] at hnow
      · exact .failed hlookup hnow
      · exact .carriedOut hlookup hnow

/-- Writes that all have recorded results are carried out by doing nothing. -/
theorem performAll_of_all_isSome
    (tx : Transaction)
    (moment : Moment)
    (actor : String)
    (s : Store)
    {pending : List (Write × Option WriteResult)} :
    ∀ position, (∀ p ∈ pending, p.2.isSome) →
      ∃ results, performAll tx moment actor position pending s = (.ok results, s) := by
  induction pending with
  | nil =>
      intro position _
      exact ⟨[], rfl⟩
  | cons head rest ih =>
      intro position hall
      obtain ⟨results, hrest⟩ := ih (position + 1) fun p hp => hall p (List.mem_cons_of_mem _ hp)
      obtain ⟨write, prior⟩ := head
      obtain ⟨result, rfl⟩ := Option.isSome_iff_exists.1 (hall _ List.mem_cons_self)
      refine ⟨result :: results, ?_⟩
      rw [performAll_cons_some, hrest]
      rfl

theorem exists_results_of_refusal?_eq_none
    {tx : Transaction}
    {priors : List (Option WriteResult)}
    {order : ReadOrder}
    (h : s.refusal? tx order priors = none)
    (moment : Moment)
    (actor : String) :
    ∃ results, (performAll tx moment actor 0 (tx.writes.zip priors) s).1 = .ok results := by
  have hcheck := s.failingWrite?_eq tx actor (tx.writes.zip priors) 0 [] s.timeless fun path =>
    s.overlaid_nil tx.tenant path
  have hends := endsIn_performAll tx moment actor (tx.writes.zip priors) 0 s
  unfold refusal? at h
  split at h
  · cases h
  · rw [hcheck] at h
    split at h
    · next goal hgoal =>
        obtain ⟨results, t⟩ := goal
        rw [hgoal] at hends
        obtain ⟨answer, hanswer, -, -⟩ := hends.ok
        exact ⟨answer, hanswer⟩
    · cases h

/-- Whether a transaction has writes, and all of them have recorded results. -/
def Replayed
    (tx : Transaction)
    (priors : List (Option WriteResult)) :
    Prop :=
  tx.writes ≠ [] ∧ none ∉ priors

theorem exists_results_of_checked
    {tx : Transaction}
    {priors : List (Option WriteResult)}
    {order : ReadOrder}
    (h : Replayed tx priors ∨ s.refusal? tx order priors = none)
    (moment : Moment)
    (actor : String) :
    ∃ results, (performAll tx moment actor 0 (tx.writes.zip priors) s).1 = .ok results := by
  rcases h with hreplayed | hnone
  · have hall : ∀ p ∈ tx.writes.zip priors, p.2.isSome := by
      intro p hp
      refine Option.isSome_iff_ne_none.2 fun hprior => ?_
      exact hreplayed.2 (hprior ▸ (List.of_mem_zip hp).2)
    obtain ⟨results, hrun⟩ := performAll_of_all_isSome tx moment actor s 0 hall
    exact ⟨results, congrArg Prod.fst hrun⟩
  · exact exists_results_of_refusal?_eq_none hnone moment actor

/-- The ways in which a commit ends. -/
inductive Committed
    (s : Store)
    (moment : Moment)
    (tx : Transaction)
    (actor : String) :
    Except StoreError Receipt → Store → Prop
  | answered
      {receipt : Receipt}
      {s' : Store}
      (hlookup : s.lookupReply tx.tenant tx.id moment.instant = (some (.committed receipt), s')) :
      Committed s moment tx actor (.ok receipt) s'
  | refused
      {reply : Reply}
      {s' : Store}
      (hlookup : s.lookupReply tx.tenant tx.id moment.instant = (some reply, s'))
      (hkind : reply.kind ≠ .commit) :
      Committed s moment tx actor (.error (.keyReused tx.id reply.kind)) s'
  /-- A derived key was used for something else. -/
  | memberRefused
      {e : StoreError}
      {s' s'' : Store}
      (hlookup : s.lookupReply tx.tenant tx.id moment.instant = (none, s'))
      (hderived : derivedReplies tx moment.instant 0 tx.writes s' = (.error e, s'')) :
      Committed s moment tx actor (.error e) s''
  | failed
      {e : StoreError}
      {s' s'' : Store}
      {priors : List (Option WriteResult)}
      (hlookup : s.lookupReply tx.tenant tx.id moment.instant = (none, s'))
      (hderived : derivedReplies tx moment.instant 0 tx.writes s' = (.ok priors, s''))
      (hrefusal : s''.refusal? tx moment.order priors = some e) :
      Committed s moment tx actor (.error e) s''
  | carriedOut
      {results : List WriteResult}
      {s' s'' after : Store}
      {priors : List (Option WriteResult)}
      (hlookup : s.lookupReply tx.tenant tx.id moment.instant = (none, s'))
      (hderived : derivedReplies tx moment.instant 0 tx.writes s' = (.ok priors, s''))
      (hchecked : Replayed tx priors ∨ s''.refusal? tx moment.order priors = none)
      (hrun : performAll tx moment actor 0 (tx.writes.zip priors) s'' = (.ok results, after)) :
      Committed s moment tx actor (.ok ⟨tx.id, results⟩)
        (after.record tx.tenant tx.id (.committed ⟨tx.id, results⟩) moment.instant)

/-- A commit ends in one of the listed ways. -/
theorem committed_commit
    (s : Store)
    (moment : Moment)
    (tx : Transaction)
    (actor : String) :
    Committed s moment tx actor (s.commit moment tx actor).1 (s.commit moment tx actor).2 := by
  unfold commit
  split
  · next receipt s' hlookup =>
      exact .answered hlookup
  · next reply s' hcommitted hlookup =>
      refine .refused hlookup ?_
      cases reply with
      | committed receipt =>
          exact absurd rfl (hcommitted receipt)
      | single kind result =>
          cases kind <;> simp [Reply.kind]
      | member result =>
          simp [Reply.kind]
  · next s' hlookup =>
      split
      · next e s'' hderived =>
          exact .memberRefused hlookup hderived
      · next priors s'' hderived =>
          have hchecked : (if !tx.writes.isEmpty && priors.all Option.isSome then none
              else s''.refusal? tx moment.order priors) = none →
              Replayed tx priors ∨ s''.refusal? tx moment.order priors = none := by
            intro hnone
            split at hnone
            · next hreplayed =>
                obtain ⟨hwrites, hall⟩ := Bool.and_eq_true_iff.1 hreplayed
                refine .inl ⟨by simpa using hwrites, fun hmem => ?_⟩
                cases List.all_eq_true.1 hall none hmem
            · exact .inr hnone
          dsimp only
          split
          · next e hrefusal =>
              split at hrefusal
              · cases hrefusal
              · exact .failed hlookup hderived hrefusal
          · next hnone =>
              obtain ⟨results, hok⟩ := exists_results_of_checked (hchecked hnone) moment actor
              split
              · next hrun =>
                  rw [hrun] at hok
                  cases hok
              · next hrun =>
                  exact .carriedOut hlookup hderived (hchecked hnone) hrun

end Store
end DocumentStore
