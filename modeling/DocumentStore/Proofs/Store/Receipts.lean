import DocumentStore.Proofs.Store.Retries

/-!
# Receipts and the results that they list

A commit that succeeds is known by its id with its receipt, and each result
that the receipt lists is known under the key derived for its write.  Nothing
else is ever recorded as the result of a write of a transaction.  So a commit
whose id is unknown finds no earlier results under its derived keys: they are
all unknown, or one belongs to another request and the commit is refused.
-/

namespace DocumentStore
namespace Store

variable {s : Store} {tx : Transaction} {instant : Nat} {moment : Moment} {actor : String}

/-! ### What a commit finds under its derived keys -/

/-- A commit is refused for a derived key that was used for something else. -/
theorem exists_keyReused_of_derivedReplies
    {position : Nat}
    {writes : List Write}
    {s' : Store}
    {e : StoreError}
    (h : derivedReplies tx instant position writes s = (.error e, s')) :
    ∃ key kind, e = .keyReused key kind := by
  induction writes generalizing position s with
  | nil =>
      cases h
  | cons write rest ih =>
      unfold derivedReplies at h
      split at h
      · split at h
        · cases h
        · next hrest =>
            cases h
            exact ih hrest
      · cases h
        exact ⟨_, _, rfl⟩
      · split at h
        · cases h
        · next hrest =>
            cases h
            exact ih hrest

/-! ### What a commit makes known -/

/-- A run that succeeds with a result in front is one that succeeds. -/
theorem prepend_eq_ok_iff
    {result : WriteResult}
    {run : Except StoreError (List WriteResult) × Store}
    {results : List WriteResult}
    {after : Store} :
    prepend result run = (.ok results, after) ↔
      ∃ later, run = (.ok later, after) ∧ results = result :: later := by
  constructor
  · intro h
    obtain ⟨answer, s⟩ := run
    cases answer with
    | error e =>
        cases h
    | ok later =>
        cases h
        exact ⟨later, rfl, rfl⟩
  · rintro ⟨later, rfl, rfl⟩
    rfl

/--
The writes of a transaction from a position on are carried out, one after the
other.  A write with a recorded result is passed over and has that result; the
result of every other one is recorded under the key derived for its position.
-/
inductive PerformsAll
    (tx : Transaction)
    (moment : Moment)
    (actor : String) :
    Nat → List (Write × Option WriteResult) → Store → List WriteResult → Store → Prop
  | nil
      (position : Nat)
      (s : Store) :
      PerformsAll tx moment actor position [] s [] s
  | recorded
      {position : Nat}
      {rest : List (Write × Option WriteResult)}
      {s after : Store}
      {later : List WriteResult}
      (write : Write)
      (prior : WriteResult)
      (hrest : PerformsAll tx moment actor (position + 1) rest s later after) :
      PerformsAll tx moment actor position ((write, some prior) :: rest) s (prior :: later) after
  | performed
      {position : Nat}
      {write : Write}
      {rest : List (Write × Option WriteResult)}
      {s s' after : Store}
      {first : WriteResult}
      {later : List WriteResult}
      (hperform : { s with clock := some (timeAfter s.clock (moment.wall position)) }.perform
        tx.tenant write ⟨actor, some (tx.derivedKey position), some tx.id⟩
        (timeAfter s.clock (moment.wall position)) = .ok (first, s'))
      (hrest : PerformsAll tx moment actor (position + 1) rest
        (s'.record tx.tenant (tx.derivedKey position) (.member first) moment.instant) later after) :
      PerformsAll tx moment actor position ((write, none) :: rest) s (first :: later) after

/-- So a commit that succeeds carries out its writes. -/
theorem performAll_eq_ok_iff
    {position : Nat}
    {pending : List (Write × Option WriteResult)}
    {results : List WriteResult}
    {after : Store} :
    performAll tx moment actor position pending s = (.ok results, after) ↔
      PerformsAll tx moment actor position pending s results after := by
  constructor
  · intro h
    induction pending generalizing position s results with
    | nil =>
        cases h
        exact .nil position _
    | cons head rest ih =>
        obtain ⟨write, prior⟩ := head
        cases prior with
        | some prior =>
            rw [performAll_cons_some] at h
            obtain ⟨later, hrest, rfl⟩ := prepend_eq_ok_iff.1 h
            exact .recorded write prior (ih hrest)
        | none =>
            rw [performAll_cons_none] at h
            dsimp only at h
            split at h
            · cases h
            · next first s' hperform =>
                obtain ⟨later, hrest, rfl⟩ := prepend_eq_ok_iff.1 h
                exact .performed hperform (ih hrest)
  · intro h
    induction h with
    | nil position s =>
        rfl
    | recorded write prior hrest ih =>
        rw [performAll_cons_some]
        exact prepend_eq_ok_iff.2 ⟨_, ih, rfl⟩
    | performed hperform hrest ih =>
        rw [performAll_cons_none]
        dsimp only
        rw [hperform]
        exact prepend_eq_ok_iff.2 ⟨_, ih, rfl⟩

/-- What is known before some writes is known after them, unless replies were dropped meanwhile. -/
theorem PerformsAll.keeps
    {position : Nat}
    {pending : List (Write × Option WriteResult)}
    {between after : Store}
    {results : List WriteResult}
    (h : PerformsAll tx moment actor position pending between results after)
    (hunknown : between.Unknown tx position pending)
    (hearlier : Remembers s between)
    (hkept : after.dropped = s.dropped) :
    between.dropped = s.dropped ∧ after.dropped = between.dropped ∧
      ∀ key reply, between.known? key = some reply → after.known? key = some reply := by
  have hremembers := remembers_performAll hunknown moment actor
  rw [performAll_eq_ok_iff.2 h] at hremembers
  have hle := hearlier.dropped_le
  have hle' : between.dropped ≤ after.dropped := hremembers.dropped_le
  have hsame : after.dropped = between.dropped := by omega
  exact ⟨by omega, hsame, hremembers.keeps hsame⟩

/-- Results are known under the keys derived for their positions. -/
def KnowsMembers
    (s : Store)
    (tx : Transaction)
    (position : Nat)
    (results : List WriteResult) :
    Prop :=
  ∀ i result, results[i]? = some result →
    s.known? (tx.tenant, tx.derivedKey (position + i)) = some (.member result)

theorem KnowsMembers.cons
    {position : Nat}
    {first : WriteResult}
    {later : List WriteResult}
    (hfirst : s.known? (tx.tenant, tx.derivedKey position) = some (.member first))
    (hlater : s.KnowsMembers tx (position + 1) later) :
    s.KnowsMembers tx position (first :: later) := by
  intro i result hi
  cases i with
  | zero =>
      cases hi
      exact hfirst
  | succ i =>
      rw [Nat.add_comm i 1, ← Nat.add_assoc]
      exact hlater i result hi

/-- The results of a commit are known under the derived keys, unless replies are dropped. -/
theorem PerformsAll.knowsMembers
    {position : Nat}
    {pending : List (Write × Option WriteResult)}
    {results : List WriteResult}
    {after : Store}
    (h : PerformsAll tx moment actor position pending s results after)
    (hunknown : s.Unknown tx position pending)
    (hpriors : ∀ i write prior, pending[i]? = some (write, some prior) →
      s.known? (tx.tenant, tx.derivedKey (position + i)) = some (.member prior))
    (hkept : after.dropped = s.dropped) :
    after.KnowsMembers tx position results := by
  induction h with
  | nil position s =>
      intro i result hi
      cases hi
  | recorded write prior hrest ih =>
      obtain ⟨-, hsame, hkeeps⟩ := hrest.keeps hunknown.tail (.of_replies_eq rfl) hkept
      refine .cons (hkeeps _ _ (hpriors 0 write prior rfl)) (ih hunknown.tail ?_ hsame)
      intro i write' prior' hi
      rw [Nat.add_assoc, Nat.add_comm 1 i]
      exact hpriors (i + 1) write' prior' hi
  | @performed position write rest s s' after first later hperform hrest ih =>
      have hperformed := performed_of_perform hperform
      have hlater : s'.Unknown tx (position + 1) rest := by
        intro i write' hi
        rw [known?_congr hperformed.replies_eq]
        exact hunknown.tail i write' hi
      have hticked : Remembers s
          { s with clock := some (timeAfter s.clock (moment.wall position)) } :=
        .of_replies_eq rfl
      have hfirst := hticked.trans
        (hperformed.remembers_record (hunknown 0 write rfl) (.member first) moment.instant)
      obtain ⟨hsame, hsame', hkeeps⟩ := hrest.keeps (hlater.record _ _) hfirst hkept
      refine .cons (hkeeps _ _ (known?_record_self _ _ _ _ _)) (ih (hlater.record _ _) ?_ hsame')
      intro i write' prior hi
      rw [Nat.add_assoc, Nat.add_comm 1 i]
      exact hfirst.keeps hsame _ _ (hpriors (i + 1) write' prior hi)

/-! ### Receipts and the results known beside them -/

/-- A result known under a derived key has a receipt, and what a receipt lists is known. -/
structure Paired (s : Store) : Prop where
  receipt_of_member :
    ∀ (tx : Transaction) (i : Nat) (result : WriteResult),
      s.known? (tx.tenant, tx.derivedKey i) = some (.member result) →
      ∃ receipt, s.known? (tx.tenant, tx.id) = some (.committed receipt)
  member_of_receipt :
    ∀ (tx : Transaction) (receipt : Receipt) (i : Nat) (result : WriteResult),
      s.known? (tx.tenant, tx.id) = some (.committed receipt) →
      receipt.results[i]? = some result →
      s.known? (tx.tenant, tx.derivedKey i) = some (.member result)

namespace Paired

variable {s' : Store}

/-- Replies to single writes leave receipts and results as they are. -/
theorem of_singles
    (h : s.Paired)
    (hremembers : Remembers s s')
    (hkept : s'.dropped = s.dropped)
    (hknown : ∀ key reply, s'.known? key = some reply →
      s.known? key = some reply ∨ ∃ kind result, reply = .single kind result) :
    s'.Paired where
  receipt_of_member := by
    intro tx i result hmember
    rcases hknown _ _ hmember with hold | ⟨kind, single, hsingle⟩
    · obtain ⟨receipt, hreceipt⟩ := h.receipt_of_member tx i result hold
      exact ⟨receipt, hremembers.keeps hkept _ _ hreceipt⟩
    · cases hsingle
  member_of_receipt := by
    intro tx receipt i result hreceipt hi
    rcases hknown _ _ hreceipt with hold | ⟨kind, single, hsingle⟩
    · exact hremembers.keeps hkept _ _ (h.member_of_receipt tx receipt i result hold hi)
    · cases hsingle

theorem of_looked
    (h : s.Paired)
    (hlooked : Looked s s')
    (hkept : s'.dropped = s.dropped) :
    s'.Paired :=
  h.of_singles hlooked.remembers hkept fun key reply hknown => .inl (hlooked.known key reply hknown)

/-- A receipt that becomes known together with its results is paired with them. -/
theorem of_receipt
    (h : s.Paired)
    (hremembers : Remembers s s')
    (hkept : s'.dropped = s.dropped)
    {receipt : Receipt}
    (hreceipt : s'.known? (tx.tenant, tx.id) = some (.committed receipt))
    (hmembers : ∀ i result, receipt.results[i]? = some result →
      s'.known? (tx.tenant, tx.derivedKey i) = some (.member result))
    (hknown : ∀ key reply, s'.known? key = some reply →
      s.known? key = some reply ∨
      (∃ i result, key = (tx.tenant, tx.derivedKey i) ∧ reply = .member result) ∨
      key = (tx.tenant, tx.id) ∧ reply = .committed receipt) :
    s'.Paired where
  receipt_of_member := by
    intro tx' i result hmember
    rcases hknown _ _ hmember with hold | ⟨j, member, hkey, -⟩ | ⟨-, hcommitted⟩
    · obtain ⟨receipt', hreceipt'⟩ := h.receipt_of_member tx' i result hold
      exact ⟨receipt', hremembers.keeps hkept _ _ hreceipt'⟩
    · obtain ⟨htenant, hderived⟩ := Prod.mk.inj hkey
      obtain ⟨hid, -⟩ := Transaction.derivedKey_inj hderived
      exact ⟨receipt, by rw [htenant, hid, hreceipt]⟩
    · cases hcommitted
  member_of_receipt := by
    intro tx' receipt' i result hreceipt' hi
    rcases hknown _ _ hreceipt' with hold | ⟨j, member, -, hmember⟩ | ⟨hkey, hcommitted⟩
    · exact hremembers.keeps hkept _ _ (h.member_of_receipt tx' receipt' i result hold hi)
    · cases hmember
    · cases hcommitted
      obtain ⟨htenant, hid⟩ := Prod.mk.inj hkey
      have hderived : tx'.derivedKey i = tx.derivedKey i := by
        unfold Transaction.derivedKey
        rw [hid]
      rw [htenant, hderived]
      exact hmembers i result hi

end Paired

/-- A write makes at most the reply to a single write known, under a key that had none. -/
theorem known?_of_known?_write
    {tenant : String}
    {write : Write}
    {replyKey : Option String}
    {key : String × String}
    {reply : Reply}
    (h : (s.write moment tenant actor write replyKey).2.known? key = some reply) :
    s.known? key = some reply ∨
      s.reply? key.1 key.2 moment.instant = none ∧ ∃ kind result, reply = .single kind result := by
  cases replyKey with
  | none =>
      have hreplies : (s.write moment tenant actor write none).2.replies = s.replies :=
        (s.writtenNow_writeNow moment tenant actor write none).replies_eq
      rw [known?_congr hreplies] at h
      exact .inl h
  | some k =>
      have hlookup := @known?_of_known?_lookupReply s tenant k moment.instant key reply
      have hfound : s.reply? tenant k moment.instant = (s.lookupReply tenant k moment.instant).1 :=
        rfl
      have hwritten := s.written_write moment tenant actor write k
      generalize s.write moment tenant actor write (some k) = response at hwritten h
      obtain ⟨answer, final⟩ := response
      cases hwritten with
      | answered heq =>
          rw [heq] at hlookup
          exact .inl (hlookup h)
      | refused heq hkind =>
          rw [heq] at hlookup
          exact .inl (hlookup h)
      | failed heq hrun =>
          rw [heq] at hlookup
          rw [known?_congr hrun.replies_eq] at h
          exact .inl (hlookup h)
      | @carriedOut result _ after heq hrun =>
          rw [heq] at hlookup hfound
          have hrecorded : (after.record tenant k (.single write.kind result)
              moment.instant).known? key = some reply := h
          by_cases hkey : key = (tenant, k)
          · rw [hkey, known?_record_self] at hrecorded
            rw [hkey]
            exact .inr ⟨hfound, write.kind, result, (Option.some.inj hrecorded).symm⟩
          · have hafter := known?_of_known?_record hkey hrecorded
            rw [known?_congr hrun.replies_eq] at hafter
            exact .inl (hlookup hafter)

/-- A commit that was carried out pairs its receipt with its results. -/
theorem Prepared.paired
    {s' after : Store}
    {priors : List (Option WriteResult)}
    {results : List WriteResult}
    (h : Prepared s tx priors s')
    (hpaired : s.Paired)
    (hrun : performAll tx moment actor 0 (tx.writes.zip priors) s' = (.ok results, after))
    (hkept : (after.record tx.tenant tx.id (.committed ⟨tx.id, results⟩) moment.instant).dropped =
      s.dropped) :
    (after.record tx.tenant tx.id (.committed ⟨tx.id, results⟩) moment.instant).Paired := by
  have hwrites := remembers_performAll h.members moment actor
  rw [hrun] at hwrites
  have hreceipt := Store.remembers_record (h.known?_id hrun) (.committed ⟨tx.id, results⟩)
    moment.instant
  have hsame : s'.dropped = s.dropped ∧ after.dropped = s'.dropped := by
    have hle := h.looked.remembers.dropped_le
    have hle' : s'.dropped ≤ after.dropped := hwrites.dropped_le
    have hle'' := hreceipt.dropped_le
    omega
  refine hpaired.of_receipt (h.looked.remembers.trans (h.remembers_record hrun _)) hkept
    (known?_record_self _ _ _ _ _) ?_ ?_
  · intro i result hi
    refine hreceipt.keeps (by omega) _ _ ?_
    rw [← Nat.zero_add i]
    refine (performAll_eq_ok_iff.1 hrun).knowsMembers h.members ?_ hsame.2 i result hi
    intro j write prior hj
    rw [Nat.zero_add, h.looked.known?_eq hsame.1]
    exact h.found hsame.1 j (some prior) (List.getElem?_zip_eq_some.1 hj).2
  · intro key reply hknown
    by_cases hkey : key = (tx.tenant, tx.id)
    · rw [hkey, known?_record_self] at hknown
      exact .inr (.inr ⟨hkey, (Option.some.inj hknown).symm⟩)
    · rcases h.known?_performAll hrun (known?_of_known?_record hkey hknown) with hold | hmember
      · exact .inl (h.looked.known key reply hold)
      · exact .inr (.inl hmember)

/-- A commit keeps receipts paired with their results, unless replies are dropped. -/
theorem Paired.commit
    (h : s.Paired)
    (hkept : (s.commit moment tx actor).2.dropped = s.dropped) :
    (s.commit moment tx actor).2.Paired := by
  have hsame := s.lookupReply_commit_dropped_eq hkept
  have hpaired := h.of_looked (s.looked_lookupReply tx.tenant tx.id moment.instant) hsame
  have hconcluded := s.concluded_commit moment tx actor
  generalize s.commit moment tx actor = response at hconcluded hkept ⊢
  cases hconcluded with
  | looked hlooked =>
      exact hpaired.of_looked hlooked (hkept.trans hsame.symm)
  | carriedOut hprepared hrun =>
      exact hprepared.paired hpaired hrun (hkept.trans hsame.symm)

/-- A call keeps receipts paired with their results, unless replies are dropped. -/
theorem Paired.serve
    (h : s.Paired)
    {call : Call}
    (hkept : (s.serve moment call).2.dropped = s.dropped) :
    (s.serve moment call).2.Paired := by
  have hremembers := s.remembers_serve moment call
  have hserved := s.served_serve moment call
  generalize s.serve moment call = response at hserved hremembers hkept ⊢
  cases hserved with
  | pathless hpath e =>
      exact h
  | write hwrites =>
      exact h.of_singles hremembers hkept fun _ _ hknown =>
        (known?_of_known?_write hknown).imp_right And.right
  | commit tx actor =>
      exact h.commit hkept
  | sweep =>
      have hentries : (s.sweep moment.instant).2.replies.entries = s.replies.entries :=
        Cache.entries_sweep_of_dropped_eq hkept
      refine h.of_singles hremembers hkept fun key reply hknown => .inl ?_
      unfold known? Cache.value? Cache.entryAt? at hknown ⊢
      rw [← hentries]
      exact hknown

/-- Calls keep receipts paired with their results, unless replies are dropped. -/
theorem Paired.afterCalls
    (h : s.Paired)
    (calls : List (Moment × Call))
    (hkept : (s.afterCalls calls).dropped = s.dropped) :
    (s.afterCalls calls).Paired := by
  induction calls generalizing s with
  | nil =>
      exact h
  | cons call rest ih =>
      have hle := (s.remembers_serve call.1 call.2).dropped_le
      have hle' := ((s.serve call.1 call.2).2.remembers_afterCalls rest).dropped_le
      have hrest : ((s.serve call.1 call.2).2.afterCalls rest).dropped = s.dropped := hkept
      have hserved : (s.serve call.1 call.2).2.dropped = s.dropped := by omega
      exact ih (h.serve hserved) (hrest.trans hserved.symm)

/-! ### Commits under keys of other requests -/

/-- A commit with an unknown id that is not refused finds its derived keys unknown. -/
theorem Paired.known?_derivedKey
    {s' : Store}
    {priors : List (Option WriteResult)}
    (h : s.Paired)
    (hunknown : s.known? (tx.tenant, tx.id) = none)
    (hderived : derivedReplies tx instant 0 tx.writes s = (.ok priors, s'))
    (hkept : s'.dropped = s.dropped)
    {i : Nat}
    (hi : i < tx.writes.length) :
    s.known? (tx.tenant, tx.derivedKey i) = none := by
  have hlength := length_of_derivedReplies hderived
  have hprior : priors[i]? = some priors[i] := List.getElem?_eq_getElem (by omega)
  have hknown := known?_of_derivedReplies hderived hkept hprior
  rw [Nat.zero_add] at hknown
  cases hfound : priors[i] with
  | none =>
      rw [hknown, hfound]
      rfl
  | some result =>
      rw [hfound] at hknown
      obtain ⟨receipt, hreceipt⟩ := h.receipt_of_member tx i result hknown
      rw [hunknown] at hreceipt
      cases hreceipt

/--
A commit one of whose derived keys is the key of another request is refused,
or gets the receipt known by its id; in both cases it only looks up replies.
-/
theorem commit_of_known?_derivedKey
    (h : s.Paired)
    (hkept : (s.commit moment tx actor).2.dropped = s.dropped)
    {i : Nat}
    (hi : i < tx.writes.length)
    {reply : Reply}
    (hknown : s.known? (tx.tenant, tx.derivedKey i) = some reply) :
    ((∃ key kind, (s.commit moment tx actor).1 = .error (.keyReused key kind)) ∨
      ∃ receipt, s.known? (tx.tenant, tx.id) = some (.committed receipt) ∧
        (s.commit moment tx actor).1 = .ok receipt) ∧
      Consulted s (s.commit moment tx actor).2 := by
  have hlooked := s.looked_lookupReply tx.tenant tx.id moment.instant
  have hsame := s.lookupReply_commit_dropped_eq hkept
  have hpaired := h.of_looked hlooked hsame
  have hfound := lookupReply_fst_of_dropped_eq hsame
  have hunknown := @known?_lookupReply_of_eq_none s tx.tenant tx.id moment.instant
  rw [← hlooked.known?_eq hsame] at hknown
  have hcommitted := s.committed_commit moment tx actor
  generalize s.commit moment tx actor = response at hcommitted hkept ⊢
  obtain ⟨answer, final⟩ := response
  cases hcommitted with
  | @answered receipt s' heq =>
      rw [heq] at hfound hlooked
      exact ⟨.inr ⟨receipt, hfound.symm, rfl⟩, hlooked.consulted⟩
  | refused heq hkind =>
      rw [heq] at hlooked
      exact ⟨.inl ⟨_, _, rfl⟩, hlooked.consulted⟩
  | @memberRefused _ s' _ heq hderived =>
      obtain ⟨key, kind, rfl⟩ := exists_keyReused_of_derivedReplies hderived
      have hmore := consulted_derivedReplies tx moment.instant 0 tx.writes s'
      rw [heq] at hlooked
      rw [hderived] at hmore
      exact ⟨.inl ⟨key, kind, rfl⟩, hlooked.consulted.trans hmore⟩
  | failed heq hderived hrefusal =>
      rw [heq] at hpaired hunknown hknown hsame
      rw [hpaired.known?_derivedKey (hunknown rfl) hderived (hkept.trans hsame.symm) hi] at hknown
      cases hknown
  | @carriedOut results s' s'' after priors heq hderived hchecked hrun =>
      rw [heq] at hpaired hunknown hknown hsame
      have hprepared := prepared_of_derivedReplies (hunknown rfl) hderived
      have hlower := hprepared.looked.remembers.dropped_le
      have hupper := (hprepared.remembers_record hrun (.committed ⟨tx.id, results⟩)).dropped_le
      have hsame' : s''.dropped = s'.dropped := by
        have hle := hkept ▸ hupper
        exact Nat.le_antisymm (hsame ▸ hle) hlower
      rw [hpaired.known?_derivedKey (hunknown rfl) hderived hsame' hi] at hknown
      cases hknown

end Store
end DocumentStore
