import DocumentStore.Proofs.Store.Placement
import DocumentStore.Proofs.Store.Receipts

/-!
# The documents that replies hand out

A recorded reply answers later requests, whatever they name, so what it hands
out has to be right on its own.  Every document in a recorded reply was left by
a logged write: of the tenant that the reply belongs to, and made under the key
of the reply, or under the key derived for its place in a receipt.  The log
tells the document in full: its path, its payload and its version.

A write that finds no reply under its key returns a document at its own path.
A commit that finds no receipt returns a result for each of its writes; a
write for which nothing is recorded has its document at its own path.
-/

namespace DocumentStore

/-- The document that a write returned, if it returned one. -/
def WriteResult.document? : WriteResult → Option Document
  | written doc => some doc
  | deleted _ => none

/-- A log entry tells of a write that left a document. -/
structure LogEntry.Shows
    (e : LogEntry)
    (doc : Document) :
    Prop where
  tenant : e.tenant = doc.tenant
  path : e.path = doc.path
  payload : e.after = some doc.data
  version : e.version = doc.version

namespace ChangeLog

/-- A logged write, made in a tenant and under a key or none, left a document. -/
def Accounts
    (log : ChangeLog)
    (tenant : String)
    (key : Option String)
    (doc : Document) :
    Prop :=
  doc.tenant = tenant ∧ ∃ e ∈ log.entries, e.origin.key = key ∧ e.Shows doc

theorem Accounts.mono
    {log log' : ChangeLog}
    {tenant : String}
    {key : Option String}
    {doc : Document}
    (h : log.Accounts tenant key doc)
    (hextends : log.entries <+: log'.entries) :
    log'.Accounts tenant key doc := by
  obtain ⟨htenant, e, he, hshows⟩ := h
  exact ⟨htenant, e, hextends.subset he, hshows⟩

end ChangeLog

/-- A reply recorded under a key hands out a document that was written under a key. -/
inductive Reply.HandsOut (key : String) : Reply → String → Document → Prop
  | single
      (kind : ChangeKind)
      (doc : Document) :
      HandsOut key (.single kind (.written doc)) key doc
  | member
      (doc : Document) :
      HandsOut key (.member (.written doc)) key doc
  | committed
      {receipt : Receipt}
      {i : Nat}
      {doc : Document}
      (h : receipt.results[i]? = some (.written doc)) :
      HandsOut key (.committed receipt) (key ++ "#" ++ toString i) doc

/-- The reply to a single write hands out the document of its result. -/
theorem Reply.HandsOut.of_single
    {key : String}
    {kind : ChangeKind}
    {result : WriteResult}
    {doc : Document}
    (h : doc ∈ result.document?) :
    HandsOut key (.single kind result) key doc := by
  cases result with
  | written doc' =>
      cases h
      exact .single kind doc
  | deleted existed =>
      cases h

/-- The reply to a write of a transaction hands out the document of its result. -/
theorem Reply.HandsOut.of_member
    {key : String}
    {result : WriteResult}
    {doc : Document}
    (h : doc ∈ result.document?) :
    HandsOut key (.member result) key doc := by
  cases result with
  | written doc' =>
      cases h
      exact .member doc
  | deleted existed =>
      cases h

/-- A log accounts for all that a reply hands out, and the reply has a document if it should. -/
structure ChangeLog.Backs
    (log : ChangeLog)
    (key : String × String)
    (reply : Reply) :
    Prop where
  accounts :
    ∀ under doc, reply.HandsOut key.2 under doc → log.Accounts key.1 (some under) doc
  isSome_document? :
    ∀ kind result, reply = .single kind result →
      (result.document?.isSome = true ↔ kind ≠ .delete)

theorem ChangeLog.Backs.mono
    {log log' : ChangeLog}
    {key : String × String}
    {reply : Reply}
    (h : log.Backs key reply)
    (hextends : log.entries <+: log'.entries) :
    log'.Backs key reply where
  accounts under doc hout := (h.accounts under doc hout).mono hextends
  isSome_document? := h.isSome_document?

/--
A result answers a write to a path: it is the one recorded for the write, or
nothing is recorded and a document that it has is at the path.
-/
structure WriteResult.Answers
    (result : WriteResult)
    (recorded : Option Reply)
    (reply : Reply)
    (path : DocumentPath) :
    Prop where
  replayed : ∀ r ∈ recorded, r = reply
  placed : recorded = none → ∀ doc ∈ result.document?, doc.path = path

namespace Store

variable {s s' : Store} {moment : Moment} {instant : Nat} {tenant actor : String}
  {write : Write} {tx : Transaction}

/-- Documents stand where they say, and the log backs every recorded reply. -/
structure Recorded (s : Store) : Prop where
  placed : s.documents.Placed
  backed : ∀ e ∈ s.replies.entries, s.log.Backs e.key e.value

/-- The reply recorded for a key, if there is a key. -/
def keyed?
    (s : Store)
    (tenant : String)
    (key : Option String)
    (instant : Nat) :
    Option Reply :=
  key.bind fun k => s.reply? tenant k instant

namespace Recorded

theorem new
    (limit capacity lifetime : Nat)
    (tenantField : String) :
    (Store.new limit capacity lifetime tenantField).Recorded where
  placed := .empty
  backed := by
    intro e he
    cases he

theorem spared
    (h : s.Recorded)
    (hspared : Spared s s') :
    s'.Recorded where
  placed := hspared.documents_eq ▸ h.placed
  backed e he := hspared.log_eq ▸ h.backed e (hspared.replies e he)

theorem backs_of_reply?
    (h : s.Recorded)
    {key : String}
    {reply : Reply}
    (hreply : s.reply? tenant key instant = some reply) :
    s.log.Backs (tenant, key) reply := by
  obtain ⟨e, he, hkey, rfl⟩ := Cache.exists_of_get_eq_some hreply
  rw [← hkey]
  exact h.backed e he

theorem record
    (h : s.Recorded)
    {key : String}
    {reply : Reply}
    (hbacks : s.log.Backs (tenant, key) reply)
    (instant : Nat) :
    (s.record tenant key reply instant).Recorded where
  placed := h.placed
  backed := by
    intro e he
    rcases Cache.mem_of_mem_insert he with rfl | hold
    · exact hbacks
    · exact h.backed e hold

end Recorded

/-! ### Single writes -/

theorem Performed.log_prefix
    {origin : Origin}
    {now : Timestamp}
    {result : WriteResult}
    (h : Performed s tenant write origin now result s') :
    s.log.entries <+: s'.log.entries := by
  cases h with
  | changed happlied =>
      exact List.prefix_append _ _
  | absent hkind hnone =>
      exact List.prefix_refl _

/-- A write that is carried out keeps what is recorded backed. -/
theorem Performed.recorded
    {origin : Origin}
    {now : Timestamp}
    {result : WriteResult}
    (h : Performed s tenant write origin now result s')
    (hrecorded : s.Recorded) :
    s'.Recorded where
  placed := by
    cases h with
    | changed happlied =>
        exact hrecorded.placed.apply happlied
    | absent hkind hnone =>
        exact hrecorded.placed
  backed e he := by
    rw [h.replies_eq] at he
    exact (hrecorded.backed e he).mono h.log_prefix

/-- A write that is carried out returns a document unless it deletes. -/
theorem Performed.isSome_document?
    {origin : Origin}
    {now : Timestamp}
    {result : WriteResult}
    (h : Performed s tenant write origin now result s') :
    result.document?.isSome = true ↔ write.kind ≠ .delete := by
  cases h with
  | changed happlied =>
      cases happlied <;> simp [resultOf, WriteResult.document?, Write.kind]
  | absent hkind hnone =>
      simp [WriteResult.document?, hkind]

/-- The document that a write returns is at its path, and the log accounts for it. -/
theorem Performed.accounts
    {origin : Origin}
    {now : Timestamp}
    {result : WriteResult}
    (h : Performed s tenant write origin now result s')
    (hplaced : s.documents.Placed) :
    ∀ doc ∈ result.document?, doc.path = write.path ∧
      s'.log.Accounts tenant origin.key doc := by
  intro doc hdoc
  cases h with
  | @changed change documents happlied =>
      have hafter : change.after = some doc := by
        unfold resultOf at hdoc
        dsimp only at hdoc
        split at hdoc
        · next after heq =>
            cases hdoc
            exact heq
        · cases hdoc
      have hdocument := hplaced.after happlied doc hafter
      have htells := LogEntry.tells_entryOf happlied (s.log.entries.length + 1) origin
      have htenant : doc.tenant = tenant := hdocument.tenant.trans htells.tenant
      have hpath : doc.path = write.path := hdocument.path.trans htells.path
      refine ⟨hpath, htenant, _, List.mem_append_right _ List.mem_cons_self, rfl, ?_⟩
      exact
        { tenant := htells.tenant.trans htenant.symm
          path := htells.path.trans hpath.symm
          payload := by rw [ChangeLog.entryOf, hafter]; rfl
          version := by simp only [ChangeLog.entryOf, ChangeLog.versionAfter, hafter] }
  | absent hkind hnone =>
      cases hdoc

/-- What a write returns: the log accounts for the document, which is there unless it deletes. -/
structure Returned
    (s : Store)
    (tenant : String)
    (key : Option String)
    (write : Write)
    (result : WriteResult) :
    Prop where
  accounts : ∀ doc ∈ result.document?, s.log.Accounts tenant key doc
  isSome_document? : result.document?.isSome = true ↔ write.kind ≠ .delete

/-- A result that is returned may be recorded as the reply to its write. -/
theorem Returned.backs
    {key : String}
    {result : WriteResult}
    (h : s.Returned tenant (some key) write result) :
    s.log.Backs (tenant, key) (.single write.kind result) where
  accounts under doc hout := by
    cases hout with
    | single kind doc =>
        exact h.accounts doc rfl
  isSome_document? kind result heq := by
    cases heq
    exact h.isSome_document?

/-- A write carried out at once keeps what is recorded backed. -/
theorem WrittenNow.recorded
    {key : Option String}
    {answer : Except StoreError WriteResult}
    (h : WrittenNow s tenant actor write key answer s')
    (hrecorded : s.Recorded) :
    s'.Recorded := by
  cases h with
  | failed e clock =>
      exact ⟨hrecorded.placed, hrecorded.backed⟩
  | performed hperformed =>
      exact hperformed.recorded ⟨hrecorded.placed, hrecorded.backed⟩
  | absent hkind hnone =>
      exact hrecorded

/-- What a write carried out at once returns is at its path. -/
theorem WrittenNow.returned
    {key : Option String}
    {result : WriteResult}
    (h : WrittenNow s tenant actor write key (.ok result) s')
    (hplaced : s.documents.Placed) :
    s'.Returned tenant key write result ∧ ∀ doc ∈ result.document?, doc.path = write.path := by
  cases h with
  | performed hperformed =>
      have haccounts := hperformed.accounts hplaced
      exact ⟨⟨fun doc hdoc => (haccounts doc hdoc).2, hperformed.isSome_document?⟩,
        fun doc hdoc => (haccounts doc hdoc).1⟩
  | absent hkind hnone =>
      refine ⟨⟨?_, ?_⟩, ?_⟩
      · intro doc hdoc
        cases hdoc
      · simp [WriteResult.document?, hkind]
      · intro doc hdoc
        cases hdoc

/--
A write that succeeds keeps what is recorded backed; what it returns answers
it, and the log accounts for it.
-/
theorem answers_write
    (h : s.Recorded)
    {key : Option String}
    {result : WriteResult}
    (hok : (s.write moment tenant actor write key).1 = .ok result) :
    (s.write moment tenant actor write key).2.Recorded ∧
      (s.write moment tenant actor write key).2.Returned tenant key write result ∧
      result.Answers (s.keyed? tenant key moment.instant) (.single write.kind result)
        write.path := by
  cases key with
  | none =>
      have hnow := s.writtenNow_writeNow moment tenant actor write none
      rw [show (s.writeNow moment tenant actor write none).1 = .ok result from hok] at hnow
      obtain ⟨hreturned, hpath⟩ := hnow.returned h.placed
      refine ⟨hnow.recorded h, hreturned, ?_, fun _ => hpath⟩
      intro reply hreply
      cases hreply
  | some k =>
      have hconsulted := s.consulted_lookupReply tenant k moment.instant
      have hlookup := h.spared hconsulted.spared
      have hfound : s.reply? tenant k moment.instant =
        (s.lookupReply tenant k moment.instant).1 := rfl
      have hkeyed : s.keyed? tenant (some k) moment.instant =
        s.reply? tenant k moment.instant := rfl
      have hwritten := s.written_write moment tenant actor write k
      generalize s.write moment tenant actor write (some k) = response at hwritten hok ⊢
      obtain ⟨answer, final⟩ := response
      cases hwritten with
      | answered heq =>
          cases hok
          rw [heq] at hlookup hfound hconsulted
          have hbacked := h.backs_of_reply? hfound
          rw [← hconsulted.log_eq] at hbacked
          rw [hkeyed, hfound]
          refine ⟨hlookup, ⟨?_, hbacked.isSome_document? _ _ rfl⟩, ?_, ?_⟩
          · exact fun doc hdoc => hbacked.accounts k doc (.of_single hdoc)
          · intro reply hreply
            exact (Option.some.inj hreply).symm
          · intro hnone
            cases hnone
      | refused =>
          cases hok
      | failed =>
          cases hok
      | carriedOut heq hrun =>
          cases hok
          rw [heq] at hlookup hfound
          obtain ⟨hreturned, hpath⟩ := hrun.returned hlookup.placed
          rw [hkeyed, hfound]
          refine ⟨(hrun.recorded hlookup).record hreturned.backs _,
            ⟨hreturned.accounts, hreturned.isSome_document?⟩, ?_, fun _ => hpath⟩
          intro reply hreply
          cases hreply

/-! ### Commits -/

/-- The results found for the writes of a transaction are recorded under their derived keys. -/
theorem reply?_of_derivedReplies
    {position : Nat}
    {writes : List Write}
    {priors : List (Option WriteResult)}
    (h : derivedReplies tx instant position writes s = (.ok priors, s'))
    {i : Nat}
    {prior : Option WriteResult}
    (hprior : priors[i]? = some prior) :
    s.reply? tx.tenant (tx.derivedKey (position + i)) instant = prior.map .member := by
  induction writes generalizing position s priors i with
  | nil =>
      cases h
      cases hprior
  | cons write rest ih =>
      obtain ⟨first, later, between, hlookup, hrest, rfl⟩ := exists_of_derivedReplies_cons h
      cases i with
      | zero =>
          cases hprior
          exact congrArg Prod.fst hlookup
      | succ i =>
          have hsame := s.reply?_lookupReply_same tx.tenant (tx.derivedKey position) instant
            (tx.derivedKey (position + 1 + i))
          rw [hlookup] at hsame
          rw [← Nat.add_assoc, Nat.add_right_comm, ← hsame]
          exact ih hrest hprior

/-- The results found for the writes of a transaction are accounted for. -/
theorem Recorded.accounts_of_derivedReplies
    (h : s.Recorded)
    {position : Nat}
    {writes : List Write}
    {priors : List (Option WriteResult)}
    (hderived : derivedReplies tx instant position writes s = (.ok priors, s'))
    {i : Nat}
    {prior : WriteResult}
    (hprior : priors[i]? = some (some prior)) :
    ∀ doc ∈ prior.document?,
      s'.log.Accounts tx.tenant (some (tx.derivedKey (position + i))) doc := by
  intro doc hdoc
  have hconsulted := consulted_derivedReplies tx instant position writes s
  rw [hderived] at hconsulted
  rw [hconsulted.log_eq]
  exact (h.backs_of_reply? (reply?_of_derivedReplies hderived hprior)).accounts _ doc
    (.of_member hdoc)

/-- A result is that of a write of a transaction, given the result recorded for the write. -/
structure Yielded
    (s : Store)
    (tenant key : String)
    (pending : Write × Option WriteResult)
    (result : WriteResult) :
    Prop where
  accounts : ∀ doc ∈ result.document?, s.log.Accounts tenant (some key) doc
  replayed : ∀ prior ∈ pending.2, prior = result
  placed : pending.2 = none → ∀ doc ∈ result.document?, doc.path = pending.1.path

theorem Yielded.answers
    {key : String}
    {prior : Option WriteResult}
    {result : WriteResult}
    (h : s.Yielded tenant key (write, prior) result) :
    result.Answers (prior.map .member) (.member result) write.path where
  replayed r hr := by
    obtain ⟨recorded, hrecorded, rfl⟩ := Option.map_eq_some_iff.1 hr
    rw [h.replayed recorded hrecorded]
  placed hnone := h.placed (Option.map_eq_none_iff.1 hnone)

theorem Yielded.mono
    {key : String}
    {pending : Write × Option WriteResult}
    {result : WriteResult}
    (h : s.Yielded tenant key pending result)
    (hextends : s.log.entries <+: s'.log.entries) :
    s'.Yielded tenant key pending result where
  accounts doc hdoc := (h.accounts doc hdoc).mono hextends
  replayed := h.replayed
  placed := h.placed

/-- What is recorded for writes of a transaction is accounted for. -/
def PriorsAccounted
    (s : Store)
    (tx : Transaction)
    (position : Nat)
    (pending : List (Write × Option WriteResult)) :
    Prop :=
  ∀ i write prior, pending[i]? = some (write, some prior) →
    ∀ doc ∈ prior.document?, s.log.Accounts tx.tenant (some (tx.derivedKey (position + i))) doc

theorem PriorsAccounted.tail
    {position : Nat}
    {head : Write × Option WriteResult}
    {rest : List (Write × Option WriteResult)}
    (h : s.PriorsAccounted tx position (head :: rest))
    (hextends : s.log.entries <+: s'.log.entries) :
    s'.PriorsAccounted tx (position + 1) rest := by
  intro i write prior hi doc hdoc
  rw [Nat.add_assoc, Nat.add_comm 1 i]
  exact (h (i + 1) write prior hi doc hdoc).mono hextends

/-- Writes of a transaction lead from one store to another, with a result for each. -/
structure Yields
    (before after : Store)
    (tx : Transaction)
    (position : Nat)
    (pending : List (Write × Option WriteResult))
    (results : List WriteResult) :
    Prop where
  recorded : after.Recorded
  log_prefix : before.log.entries <+: after.log.entries
  length_eq : results.length = pending.length
  yielded :
    ∀ i p result, pending[i]? = some p → results[i]? = some result →
      after.Yielded tx.tenant (tx.derivedKey (position + i)) p result

/-- The first of some writes and the later ones, which start where it has led. -/
theorem Yields.cons
    {before between after : Store}
    {position : Nat}
    {head : Write × Option WriteResult}
    {rest : List (Write × Option WriteResult)}
    {first : WriteResult}
    {later : List WriteResult}
    (hextends : before.log.entries <+: between.log.entries)
    (hfirst : between.Yielded tx.tenant (tx.derivedKey position) head first)
    (hlater : Yields between after tx (position + 1) rest later) :
    Yields before after tx position (head :: rest) (first :: later) where
  recorded := hlater.recorded
  log_prefix := hextends.trans hlater.log_prefix
  length_eq := by
    rw [List.length_cons, List.length_cons, hlater.length_eq]
  yielded i p result hp hresult := by
    cases i with
    | zero =>
        cases hp
        cases hresult
        exact hfirst.mono hlater.log_prefix
    | succ i =>
        rw [Nat.add_comm i 1, ← Nat.add_assoc]
        exact hlater.yielded i p result hp hresult

/-- A write of a transaction that is carried out yields its result, which may be recorded. -/
theorem Performed.yielded
    {now : Timestamp}
    {key : String}
    {id : Option String}
    {result : WriteResult}
    (h : Performed s tenant write ⟨actor, some key, id⟩ now result s')
    (hrecorded : s.Recorded) :
    s'.Yielded tenant key (write, none) result ∧ s'.log.Backs (tenant, key) (.member result) := by
  have haccounts := h.accounts hrecorded.placed
  refine ⟨⟨fun doc hdoc => (haccounts doc hdoc).2, ?_, ?_⟩, ⟨?_, ?_⟩⟩
  · intro prior hprior
    cases hprior
  · exact fun _ doc hdoc => (haccounts doc hdoc).1
  · intro under doc hout
    cases hout with
    | member doc =>
        exact (haccounts doc rfl).2
  · intro kind single heq
    cases heq

/-- The writes of a commit yield its results, and everything that is recorded stays backed. -/
theorem PerformsAll.yields
    {position : Nat}
    {pending : List (Write × Option WriteResult)}
    {results : List WriteResult}
    {after : Store}
    (h : PerformsAll tx moment actor position pending s results after)
    (hrecorded : s.Recorded)
    (hpriors : s.PriorsAccounted tx position pending) :
    Yields s after tx position pending results := by
  induction h with
  | nil position s =>
      refine ⟨hrecorded, List.prefix_refl _, rfl, ?_⟩
      intro i p result hi
      cases hi
  | recorded write prior hrest ih =>
      refine .cons (List.prefix_refl _) ⟨hpriors 0 write prior rfl, ?_, ?_⟩
        (ih hrecorded (hpriors.tail (List.prefix_refl _)))
      · intro found heq
        exact (Option.some.inj heq).symm
      · intro hnone
        cases hnone
  | @performed position write rest s s' after first later hperform hrest ih =>
      have hperformed := performed_of_perform hperform
      have hticked : ({ s with clock := some (timeAfter s.clock (moment.wall position)) } :
          Store).Recorded := ⟨hrecorded.placed, hrecorded.backed⟩
      obtain ⟨hfirst, hbacks⟩ := hperformed.yielded hticked
      have hextends : s.log.entries <+:
          (s'.record tx.tenant (tx.derivedKey position) (.member first) moment.instant).log.entries :=
        hperformed.log_prefix
      exact .cons hextends (hfirst.mono (List.prefix_refl _))
        (ih ((hperformed.recorded hticked).record hbacks moment.instant) (hpriors.tail hextends))

/--
What a commit returns: the log accounts for the documents of its receipt.  The
receipt is the recorded one, or each of its results answers the write at its
position.
-/
structure Receipted
    (before after : Store)
    (instant : Nat)
    (tx : Transaction)
    (receipt : Receipt) :
    Prop where
  accounts :
    ∀ i doc, receipt.results[i]? = some (.written doc) →
      after.log.Accounts tx.tenant (some (tx.derivedKey i)) doc
  replayed :
    ∀ reply ∈ before.reply? tx.tenant tx.id instant, reply = .committed receipt
  length_eq :
    before.reply? tx.tenant tx.id instant = none → receipt.results.length = tx.writes.length
  answers :
    before.reply? tx.tenant tx.id instant = none →
      ∀ i (write : Write) (result : WriteResult),
        tx.writes[i]? = some write → receipt.results[i]? = some result →
        result.Answers (before.reply? tx.tenant (tx.derivedKey i) instant) (.member result)
          write.path

/-- A recorded receipt is what a commit returns. -/
theorem Recorded.receipted
    (h : s.Recorded)
    {receipt : Receipt}
    (hreply : s.reply? tx.tenant tx.id instant = some (.committed receipt))
    (hlog : s'.log = s.log) :
    s.Receipted s' instant tx receipt where
  accounts i doc hi := by
    rw [hlog]
    exact (h.backs_of_reply? hreply).accounts (tx.derivedKey i) doc (.committed hi)
  replayed reply hfound := by
    rw [hreply] at hfound
    exact (Option.some.inj hfound).symm
  length_eq hnone := by
    rw [hreply] at hnone
    cases hnone
  answers hnone := by
    rw [hreply] at hnone
    cases hnone

/-- The documents of a receipt are backed when its results are accounted for. -/
theorem Receipted.backs
    {receipt : Receipt}
    (h : s.Receipted s' instant tx receipt) :
    s'.log.Backs (tx.tenant, tx.id) (.committed receipt) where
  accounts under doc hout := by
    cases hout with
    | committed hi =>
        exact h.accounts _ doc hi
  isSome_document? kind result heq := by
    cases heq

/-- Writes of a transaction that are carried out give a receipt that answers them. -/
theorem Recorded.receipted_of_performAll
    (h : s.Recorded)
    {before after : Store}
    (hnone : before.reply? tx.tenant tx.id moment.instant = none)
    (hsame : ∀ i, s.reply? tx.tenant (tx.derivedKey i) moment.instant =
      before.reply? tx.tenant (tx.derivedKey i) moment.instant)
    {priors : List (Option WriteResult)}
    (hderived : derivedReplies tx moment.instant 0 tx.writes s = (.ok priors, s'))
    {results : List WriteResult}
    (hrun : performAll tx moment actor 0 (tx.writes.zip priors) s' = (.ok results, after)) :
    after.Recorded ∧ before.Receipted after moment.instant tx ⟨tx.id, results⟩ := by
  have hmore := consulted_derivedReplies tx moment.instant 0 tx.writes s
  rw [hderived] at hmore
  have hpriors := length_of_derivedReplies hderived
  obtain ⟨hafter, hextends, hlength, hmembers⟩ :=
    (performAll_eq_ok_iff.1 hrun).yields (h.spared hmore.spared) fun i write prior hi =>
      h.accounts_of_derivedReplies hderived (List.getElem?_zip_eq_some.1 hi).2
  rw [List.length_zip, hpriors, Nat.min_self] at hlength
  simp only [Nat.zero_add] at hmembers
  -- every result comes with its write and what was found for it
  have hmember : ∀ i (write : Write) (result : WriteResult), tx.writes[i]? = some write →
      results[i]? = some result →
      ∃ prior, priors[i]? = some prior ∧
        after.Yielded tx.tenant (tx.derivedKey i) (write, prior) result := by
    intro i write result hwrite hresult
    have hi : i < priors.length := by
      rw [hpriors]
      exact (List.getElem?_eq_some_iff.1 hwrite).1
    have hprior : priors[i]? = some priors[i] := List.getElem?_eq_getElem hi
    exact ⟨priors[i], hprior,
      hmembers i _ _ (List.getElem?_zip_eq_some.2 ⟨hwrite, hprior⟩) hresult⟩
  refine ⟨hafter, ?_, ?_, fun _ => hlength, ?_⟩
  · intro i doc hresult
    have hi : i < tx.writes.length := by
      rw [← hlength]
      exact (List.getElem?_eq_some_iff.1 hresult).1
    obtain ⟨prior, -, hyielded⟩ := hmember i _ _ (List.getElem?_eq_getElem hi) hresult
    exact hyielded.accounts doc rfl
  · intro reply hreply
    rw [hnone] at hreply
    cases hreply
  · intro _ i write result hwrite hresult
    obtain ⟨prior, hprior, hyielded⟩ := hmember i write result hwrite hresult
    have hreply := reply?_of_derivedReplies hderived hprior
    rw [Nat.zero_add] at hreply
    rw [← hsame, hreply]
    exact hyielded.answers

/-- A commit that succeeds keeps what is recorded backed, and returns what it should. -/
theorem receipted_commit
    (h : s.Recorded)
    {receipt : Receipt}
    (hok : (s.commit moment tx actor).1 = .ok receipt) :
    (s.commit moment tx actor).2.Recorded ∧
      s.Receipted (s.commit moment tx actor).2 moment.instant tx receipt := by
  have hconsulted := s.consulted_lookupReply tx.tenant tx.id moment.instant
  have hlookup := h.spared hconsulted.spared
  have hfound : s.reply? tx.tenant tx.id moment.instant =
    (s.lookupReply tx.tenant tx.id moment.instant).1 := rfl
  have hsame := fun i =>
    s.reply?_lookupReply_same tx.tenant tx.id moment.instant (tx.derivedKey i)
  have hcommitted := s.committed_commit moment tx actor
  generalize s.commit moment tx actor = response at hcommitted hok ⊢
  obtain ⟨answer, final⟩ := response
  cases hcommitted with
  | answered heq =>
      cases hok
      rw [heq] at hlookup hfound hconsulted
      exact ⟨hlookup, h.receipted hfound hconsulted.log_eq⟩
  | refused =>
      cases hok
  | memberRefused =>
      cases hok
  | failed =>
      cases hok
  | carriedOut heq hderived hchecked hrun =>
      cases hok
      rw [heq] at hlookup hfound hsame
      obtain ⟨hafter, hreceipted⟩ := hlookup.receipted_of_performAll hfound hsame hderived hrun
      exact ⟨hafter.record hreceipted.backs _, hreceipted.accounts, hreceipted.replayed,
        hreceipted.length_eq, hreceipted.answers⟩

/-! ### All calls -/

/-- A call keeps what is recorded backed. -/
theorem Recorded.serve
    (h : s.Recorded)
    (moment : Moment)
    (call : Call) :
    (s.serve moment call).2.Recorded := by
  cases hanswer : (s.serve moment call).1 with
  | error e =>
      exact h.spared (spared_serve hanswer)
  | ok answer =>
      have hserved := s.served_serve moment call
      generalize s.serve moment call = response at hserved hanswer ⊢
      cases hserved with
      | pathless hpath e =>
          exact h
      | write hwrites =>
          obtain ⟨result, hresult, -⟩ := exists_of_answering_eq_ok hanswer
          exact (answers_write h hresult).1
      | commit tx actor =>
          obtain ⟨receipt, hreceipt, -⟩ := exists_of_answering_eq_ok hanswer
          exact (receipted_commit h hreceipt).1
      | sweep =>
          exact h.spared (s.consulted_sweep moment.instant).spared

end Store
end DocumentStore
