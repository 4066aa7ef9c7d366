import DocumentStore.Proofs.Store.DerivedKeys
import DocumentStore.Proofs.Store.Histories
import DocumentStore.Proofs.Store.Outcomes

/-!
# Version guards

A client reads a document and later makes a write that hangs on the version
that it saw.  If the write is carried out and succeeds, then nothing was logged
about the document in between and it is the one that was read, provided that
it was not deleted in between.  A document that is created again starts from
version 1, so that its versions come back; and a deletion of a document that is
gone succeeds whatever version it asks for.
-/

namespace DocumentStore

/-- The version that a write asks for. -/
def Write.ifVersion? : Write → Option UInt64
  | create .. => none
  | update _ _ ifVersion _ => ifVersion
  | delete _ ifVersion => ifVersion

theorem Write.exists_position_of_mem_originated
    {id actor : String}
    {position : Nat}
    {writes : List Write}
    {write : Write}
    {origin : Origin}
    (h : (write, origin) ∈ originated id actor position writes) :
    ∃ i, writes[i]? = some write ∧ origin = Origin.ofMember id actor (position + i) := by
  induction writes generalizing position with
  | nil =>
      cases h
  | cons first rest ih =>
      rcases List.mem_cons.1 h with heq | hrest
      · cases heq
        exact ⟨0, rfl, rfl⟩
      · obtain ⟨i, hi, horigin⟩ := ih hrest
        refine ⟨i + 1, hi, ?_⟩
        rw [horigin, Nat.add_assoc, Nat.add_comm 1 i]

theorem Origin.ofMember_inj
    {id actor : String}
    {i j : Nat}
    (h : ofMember id actor i = ofMember id actor j) :
    i = j := by
  have hkeys : some (id ++ "#" ++ toString i) = some (id ++ "#" ++ toString j) :=
    congrArg Origin.key h
  exact (Text.markedPosition_inj (Option.some.inj hkeys)).2

/-- A write that is applied finds the version that it asks for. -/
theorem Documents.Applied.exists_before
    {docs docs' : Documents}
    {tenant : String}
    {write : Write}
    {now : Timestamp}
    {change : Change}
    {expected : UInt64}
    (h : Documents.Applied docs tenant now write (some change) docs')
    (hguard : write.ifVersion? = some expected) :
    ∃ before, docs.get? ⟨tenant, write.path⟩ = some before ∧
      before.version = expected.toNat := by
  cases h with
  | create hnone =>
      cases hguard
  | update hsome hversion =>
      exact ⟨_, hsome, (hversion expected hguard).symm⟩
  | delete hsome hversion =>
      exact ⟨_, hsome, (hversion expected hguard).symm⟩

namespace Store

/-! ### Writes that are carried out -/

/-- A write that asks for a version and is carried out at once finds it, or deletes nothing. -/
theorem WrittenNow.exists_before
    {s s' : Store}
    {tenant actor : String}
    {write : Write}
    {key : Option String}
    {result : WriteResult}
    {expected : UInt64}
    (h : WrittenNow s tenant actor write key (.ok result) s')
    (hguard : write.ifVersion? = some expected) :
    (∃ before, s.documents.get? ⟨tenant, write.path⟩ = some before ∧
        before.version = expected.toNat) ∨
      result = .deleted false ∧ s.documents.get? ⟨tenant, write.path⟩ = none := by
  cases h with
  | performed h =>
      cases h with
      | changed happlied =>
          exact .inl (happlied.exists_before hguard)
      | absent hkind hnone =>
          exact .inr ⟨rfl, hnone⟩
  | absent hkind hnone =>
      exact .inr ⟨rfl, hnone⟩

/-- A write that is not answered from the recorded replies is carried out at once. -/
theorem writtenNow_of_write
    {s : Store}
    {moment : Moment}
    {tenant actor : String}
    {write : Write}
    {key : Option String}
    {result : WriteResult}
    (hfresh : ∀ k ∈ key, s.reply? tenant k moment.instant = none)
    (hok : (s.write moment tenant actor write key).1 = .ok result) :
    ∃ s' after, s'.documents = s.documents ∧
      WrittenNow s' tenant actor write key (.ok result) after := by
  cases key with
  | none =>
      have hnow := s.writtenNow_writeNow moment tenant actor write none
      have hresult : (s.writeNow moment tenant actor write none).1 = .ok result := hok
      rw [hresult] at hnow
      exact ⟨s, _, rfl, hnow⟩
  | some k =>
      have hnone := hfresh k rfl
      have hlookup := s.consulted_lookupReply tenant k moment.instant
      have hwritten := s.written_write moment tenant actor write k
      rw [hok] at hwritten
      unfold reply? at hnone
      generalize (s.write moment tenant actor write (some k)).2 = after at hwritten
      cases hwritten with
      | answered heq =>
          rw [heq] at hnone
          cases hnone
      | carriedOut heq hrun =>
          rw [heq] at hlookup
          exact ⟨_, _, hlookup.documents_eq, hrun⟩

/-- A write that asks for a version finds it, or deletes what is not there. -/
theorem exists_before_of_write
    {s : Store}
    {moment : Moment}
    {tenant actor : String}
    {write : Write}
    {key : Option String}
    {answer : Answer}
    {expected : UInt64}
    (hfresh : ∀ k ∈ key, s.reply? tenant k moment.instant = none)
    (hok : (answering .result (s.write moment tenant actor write key)).1 = .ok answer)
    (hguard : write.ifVersion? = some expected) :
    (∃ before, s.documents.get? ⟨tenant, write.path⟩ = some before ∧
        before.version = expected.toNat) ∨
      answer = .result (.deleted false) ∧ s.documents.get? ⟨tenant, write.path⟩ = none := by
  unfold answering at hok
  cases hresult : (s.write moment tenant actor write key).1 with
  | error e =>
      rw [hresult] at hok
      cases hok
  | ok result =>
      rw [hresult] at hok
      cases hok
      obtain ⟨s', after, hdocuments, hnow⟩ := writtenNow_of_write hfresh hresult
      rw [← hdocuments]
      rcases hnow.exists_before hguard with hbefore | ⟨rfl, hnone⟩
      · exact .inl hbefore
      · exact .inr ⟨rfl, hnone⟩

theorem Consulted.stale_iff
    {s s' : Store}
    (h : Consulted s s')
    (tx : Transaction)
    (read : DocumentPath × Nat) :
    s'.Stale tx read ↔ s.Stale tx read := by
  unfold Stale currentVersion
  rw [h.documents_eq]

/-- The reads of a commit that is carried out are current. -/
theorem not_stale_of_commit
    {s : Store}
    {moment : Moment}
    {tx : Transaction}
    {actor : String}
    {receipt : Receipt}
    (hfresh : s.reply? tx.tenant tx.id moment.instant = none)
    (hnew : tx.writes = [] ∨ ∃ i < tx.writes.length,
      s.reply? tx.tenant (tx.derivedKey i) moment.instant = none)
    (hok : (s.commit moment tx actor).1 = .ok receipt) :
    ∀ read ∈ tx.reads, ¬ s.Stale tx read := by
  have hlookup := s.consulted_lookupReply tx.tenant tx.id moment.instant
  have hprior := s.prior?_lookupReply tx tx.id moment.instant
  have hcommitted := s.committed_commit moment tx actor
  rw [hok] at hcommitted
  unfold reply? at hfresh
  generalize (s.commit moment tx actor).2 = after at hcommitted
  cases hcommitted with
  | answered heq =>
      rw [heq] at hfresh
      cases hfresh
  | @carriedOut _ s' s'' _ priors heq hderived hchecked _ =>
      rw [heq] at hlookup hprior
      have hconsulted := hlookup.trans (consulted_derivedReplies tx moment.instant 0 tx.writes s')
      rw [hderived] at hconsulted
      have hnone : s''.refusal? tx moment.order priors = none := by
        rcases hchecked with ⟨hwrites, hall⟩ | hnone
        · rcases hnew with hempty | ⟨i, hi, hunknown⟩
          · exact absurd hempty hwrites
          · refine absurd ?_ hall
            rw [priors_of_derivedReplies hderived, hprior]
            refine List.mem_map.2 ⟨i, List.mem_range'_1.2 (by omega), ?_⟩
            simp only [prior?, hunknown]
        · exact hnone
      have hreads : s''.staleRead? tx moment.order = none := by
        unfold refusal? at hnone
        split at hnone
        · cases hnone
        · next hreads =>
            exact hreads
      intro read hmem hstale
      exact staleRead?_eq_none_iff.1 hreads read hmem ((hconsulted.stale_iff tx read).2 hstale)

/-! ### Guards -/

/-- A client reads the document at a place, by itself or within a transaction. -/
inductive Sees
    (s : Store)
    (key : DocumentKey)
    (seen : Document) :
    Prop
  | get
      {raw : String}
      (hpath : readPath raw = .ok key.path)
      (h : s.get key.tenant raw = .ok seen)
  | readIn
      {raw : String}
      {tx tx' : Transaction}
      (hpath : readPath raw = .ok key.path)
      (htenant : tx.tenant = key.tenant)
      (h : s.readIn tx raw = .ok (some seen, tx'))

/-- What a client reads is the document that is stored. -/
theorem Sees.get?_eq
    {s : Store}
    {key : DocumentKey}
    {seen : Document}
    (h : s.Sees key seen) :
    s.documents.get? key = some seen := by
  cases h with
  | get hpath h =>
      unfold Store.get at h
      rw [hpath] at h
      dsimp only at h
      split at h
      · next doc hfind =>
          cases h
          exact hfind
      · cases h
  | readIn hpath htenant h =>
      unfold Store.readIn at h
      rw [hpath, htenant] at h
      exact (Prod.mk.inj (Except.ok.inj h)).1

/--
A call makes a write that hangs on a version of a document, and the write is
carried out, not answered from the recorded replies.  The entries are those in
the log when it is.
-/
inductive Guarded
    (s : Store)
    (moment : Moment)
    (key : DocumentKey)
    (version : Nat) :
    Call → List LogEntry → Prop
  /-- A single write that asks for the version. -/
  | write
      {call : Call}
      {actor : String}
      {write : Write}
      {expected : UInt64}
      {replyKey : Option String}
      (hwrites : call.Writes key.tenant actor write replyKey)
      (hpath : write.path = key.path)
      (hguard : write.ifVersion? = some expected)
      (hversion : expected.toNat = version)
      (hfresh : ∀ k ∈ replyKey, s.reply? key.tenant k moment.instant = none) :
      Guarded s moment key version call s.log.entries
  /-- A commit that has read the version. -/
  | read
      {tx : Transaction}
      {actor : String}
      (htenant : tx.tenant = key.tenant)
      (hread : (key.path, version) ∈ tx.reads)
      (hfresh : s.reply? tx.tenant tx.id moment.instant = none)
      (hnew : tx.writes = [] ∨ ∃ i < tx.writes.length,
        s.reply? tx.tenant (tx.derivedKey i) moment.instant = none) :
      Guarded s moment key version (.commit tx actor) s.log.entries
  /-- A write of a commit that asks for the version, and has left its entry. -/
  | member
      {tx : Transaction}
      {actor : String}
      {i : Nat}
      {write : Write}
      {expected : UInt64}
      {first rest : List LogEntry}
      {e : LogEntry}
      (htenant : tx.tenant = key.tenant)
      (hwrite : tx.writes[i]? = some write)
      (hpath : write.path = key.path)
      (hguard : write.ifVersion? = some expected)
      (hversion : expected.toNat = version)
      (hlog : (s.commit moment tx actor).2.log.entries = s.log.entries ++ (first ++ e :: rest))
      (horigin : e.origin = .ofMember tx.id actor i) :
      Guarded s moment key version (.commit tx actor) (s.log.entries ++ first)

/--
A guarded call that succeeds finds the document at the version that it hangs on
when its write is carried out, or deletes what is not there.
-/
theorem Guarded.exists_current
    {s : Store}
    {moment : Moment}
    {key : DocumentKey}
    {version : Nat}
    {call : Call}
    {logged : List LogEntry}
    (h : s.Guarded moment key version call logged)
    (hversion : 1 ≤ version)
    {answer : Answer}
    (hok : (s.serve moment call).1 = .ok answer) :
    (∃ entries current, logged = s.log.entries ++ entries ∧ current.version = version ∧
        Leads key (s.documents.get? key) entries (some current)) ∨
      logged = s.log.entries ∧ answer = .result (.deleted false) ∧
        s.documents.get? key = none := by
  obtain ⟨tenant, path⟩ := key
  cases h with
  | write hwrites hpath hguard hexpected hfresh =>
      rw [serve_of_writes hwrites] at hok
      dsimp only at hpath
      subst hpath
      rcases exists_before_of_write hfresh hok hguard with
        ⟨before, hbefore, hsame⟩ | ⟨hdeleted, hnone⟩
      · refine .inl ⟨[], before, (List.append_nil _).symm, hsame.trans hexpected, ?_⟩
        rw [← hbefore]
        exact .nil _
      · exact .inr ⟨rfl, hdeleted, hnone⟩
  | @read tx actor htenant hread hfresh hnew =>
      simp only [serve, answering] at hok
      cases hcommit : (s.commit moment tx actor).1 with
      | error e =>
          rw [hcommit] at hok
          cases hok
      | ok receipt =>
          have hcurrent : ¬ s.Stale tx (path, version) :=
            not_stale_of_commit hfresh hnew hcommit _ hread
          unfold Stale currentVersion Documents.version? at hcurrent
          dsimp only at htenant
          rw [htenant, Decidable.not_not] at hcurrent
          cases hget : s.documents.get? ⟨tenant, path⟩ with
          | none =>
              rw [hget] at hcurrent
              simp at hcurrent
              omega
          | some current =>
              rw [hget] at hcurrent
              exact .inl ⟨[], current, (List.append_nil _).symm, hcurrent, .nil _⟩
  | @member tx actor i write expected first rest e htenant hwrite hpath hguard hexpected hlog
      horigin =>
      dsimp only at htenant hpath
      subst htenant hpath
      obtain ⟨entries, hentries, hleft⟩ := s.logs_commit moment tx actor
      obtain rfl := List.append_cancel_left (hlog.symm.trans hentries)
      obtain ⟨write', change, now, between, after, hmem, happlied, hleads⟩ := hleft.exists_applied
      obtain ⟨j, hj, hposition⟩ := Write.exists_position_of_mem_originated hmem
      obtain rfl : i = j := by
        rw [horigin, Nat.zero_add] at hposition
        exact Origin.ofMember_inj hposition
      obtain rfl : write = write' := Option.some.inj (hwrite.symm.trans hj)
      obtain ⟨before, hbefore, hsame⟩ := happlied.exists_before hguard
      refine .inl ⟨first, before, rfl, hsame.trans hexpected, ?_⟩
      rw [← hbefore]
      exact hleads _

/--
A client reads a document, at version 1 or later.  Then any calls are made,
and then one whose write hangs on that version; it succeeds, and the write is
carried out.  Unless the document was deleted in between, nothing was logged
about it since it was read, and the document is the one that was read.  If it
was deleted, then it was created again since, or the write is a deletion that
finds nothing to delete.
-/
theorem guarded_write_follows_read
    {s : Store}
    {key : DocumentKey}
    {seen : Document}
    (hsees : s.Sees key seen)
    (hversion : 1 ≤ seen.version)
    (calls : List (Moment × Call))
    {moment : Moment}
    {call : Call}
    {logged : List LogEntry}
    (hguarded : (s.afterCalls calls).Guarded moment key seen.version call logged)
    {answer : Answer}
    (hok : ((s.afterCalls calls).serve moment call).1 = .ok answer) :
    ∃ between, logged = s.log.entries ++ between ∧
      (Untouched key between ∧ (s.afterCalls calls).documents.get? key = some seen ∨
        Recreated key between ∨
        Deleted key between ∧ answer = .result (.deleted false) ∧
          (s.afterCalls calls).documents.get? key = none) := by
  obtain ⟨entries, hlog, hleads⟩ := s.leads_afterCalls calls key
  rw [hsees.get?_eq] at hleads
  rcases hguarded.exists_current hversion hok with
    ⟨own, current, hlogged, hcurrent, hown⟩ | ⟨hlogged, hdeleted, hnone⟩
  · refine ⟨entries ++ own, by rw [hlogged, hlog, List.append_assoc], ?_⟩
    rcases (hleads.trans hown).untouched_or_recreated hcurrent with ⟨huntouched, -⟩ | hagain
    · refine .inl ⟨huntouched, hleads.eq_of_untouched fun e he => ?_⟩
      exact huntouched e (List.mem_append_left own he)
    · exact .inr (.inl hagain)
  · refine ⟨entries, by rw [hlogged, hlog], .inr (.inr ⟨?_, hdeleted, hnone⟩)⟩
    rw [hnone] at hleads
    exact hleads.deleted_of_none

/-- The place of the order that is in stock. -/
def orderKey : DocumentKey := ⟨"T1", orderPath⟩

/-- The order that is in stock. -/
def stockedOrder : Document :=
  Document.new orderPath (.ofNat 1) "T1" ⟨7⟩

/-- Another order is created. -/
def anotherOrder : List (Moment × Call) :=
  [(⟨1, fun _ => ⟨8⟩⟩, .create "T1" "bob" "orders/O2" (.ofNat 5) (some "k2"))]

/-- The order is deleted and created again. -/
def reopenedOrder : List (Moment × Call) :=
  [(⟨1, fun _ => ⟨8⟩⟩, .delete "T1" "bob" "orders/O1" none none),
   (⟨2, fun _ => ⟨9⟩⟩, .create "T1" "bob" "orders/O1" (.ofNat 5) none)]

/-- An update that hangs on the first version of the order. -/
def guardedUpdate : Call :=
  .update "T1" "ann" "orders/O1" (.ofNat 2) (some 1) false none

theorem sees_stockedOrder : stocked.Sees orderKey stockedOrder := by
  have hpath : readPath "orders/O1" = .ok orderKey.path := by rfl
  have hget : stocked.get orderKey.tenant "orders/O1" = .ok stockedOrder := by rfl
  exact .get hpath hget

theorem guarded_guardedUpdate (s : Store) (moment : Moment) :
    s.Guarded moment orderKey stockedOrder.version guardedUpdate s.log.entries := by
  have hpath : readPath "orders/O1" = .ok orderKey.path := by rfl
  refine .write (.update hpath) rfl rfl rfl ?_
  rintro k ⟨⟩

/-- After another order was created, the update finds the order as it was read. -/
theorem guardedUpdate_after_anotherOrder :
    stocked.Sees orderKey stockedOrder ∧
    1 ≤ stockedOrder.version ∧
    (stocked.afterCalls anotherOrder).Guarded ⟨5, fun _ => ⟨9⟩⟩ orderKey stockedOrder.version
      guardedUpdate (stocked.afterCalls anotherOrder).log.entries ∧
    ∃ answer, ((stocked.afterCalls anotherOrder).serve ⟨5, fun _ => ⟨9⟩⟩ guardedUpdate).1 =
        .ok answer ∧
      ∃ between, (stocked.afterCalls anotherOrder).log.entries = stocked.log.entries ++ between ∧
        between.length = 1 ∧ Untouched orderKey between := by
  have hguarded := guarded_guardedUpdate (stocked.afterCalls anotherOrder) ⟨5, fun _ => ⟨9⟩⟩
  have hversion : 1 ≤ stockedOrder.version := by decide
  refine ⟨sees_stockedOrder, hversion, hguarded, _, rfl, ?_⟩
  obtain ⟨between, hlog, hcases⟩ :=
    guarded_write_follows_read sees_stockedOrder hversion anotherOrder hguarded rfl
  have hkinds : (stocked.afterCalls anotherOrder).log.entries.map LogEntry.kind =
      [.create, .create] := by decide +kernel
  have hbefore : stocked.log.entries.map LogEntry.kind = [.create] := by decide +kernel
  rw [hlog, List.map_append, hbefore] at hkinds
  have hbetween : between.map LogEntry.kind = [.create] := List.cons.inj hkinds |>.2
  have hkept : ¬ Deleted orderKey between := by
    rintro ⟨e, hmem, -, hkind⟩
    have hcreated : e.kind ∈ [ChangeKind.create] := hbetween ▸ List.mem_map_of_mem hmem
    rw [hkind] at hcreated
    simp at hcreated
  refine ⟨between, hlog, by simpa using congrArg List.length hbetween, ?_⟩
  rcases hcases with ⟨huntouched, -⟩ | hagain | ⟨hdeleted, -⟩
  · exact huntouched
  · exact absurd hagain.deleted hkept
  · exact absurd hdeleted hkept

/--
After the order was deleted and created again the update succeeds as well,
although the order is not the one that was read and entries tell of it.
-/
theorem guardedUpdate_after_reopenedOrder :
    stocked.Sees orderKey stockedOrder ∧
    1 ≤ stockedOrder.version ∧
    (stocked.afterCalls reopenedOrder).Guarded ⟨5, fun _ => ⟨9⟩⟩ orderKey stockedOrder.version
      guardedUpdate (stocked.afterCalls reopenedOrder).log.entries ∧
    (∃ answer, ((stocked.afterCalls reopenedOrder).serve ⟨5, fun _ => ⟨9⟩⟩ guardedUpdate).1 =
      .ok answer) ∧
    (∀ between, (stocked.afterCalls reopenedOrder).log.entries = stocked.log.entries ++ between →
      ¬ Untouched orderKey between) ∧
    ((stocked.afterCalls reopenedOrder).documents.get? orderKey).map Document.data ≠
      some stockedOrder.data := by
  refine ⟨sees_stockedOrder, by decide, guarded_guardedUpdate _ _, ⟨_, rfl⟩, ?_, by decide +kernel⟩
  intro between hlog huntouched
  have hplaces : (stocked.afterCalls reopenedOrder).log.entries.map LogEntry.place =
      [orderKey, orderKey, orderKey] := by decide +kernel
  have hbefore : stocked.log.entries.map LogEntry.place = [orderKey] := by decide +kernel
  rw [hlog, List.map_append, hbefore] at hplaces
  obtain ⟨e, rest, rfl, hplace, -⟩ := List.map_eq_cons_iff.1 (List.cons.inj hplaces).2
  exact huntouched e List.mem_cons_self hplace

end Store
end DocumentStore
