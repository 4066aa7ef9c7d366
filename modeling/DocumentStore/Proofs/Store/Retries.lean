import DocumentStore.Proofs.Store.Refusals

/-!
# Calls under known keys

A call that has succeeded under a key is known with its answer.  Unless replies
are dropped, a call under a known key gets that answer if it is of the same
kind, and is refused otherwise; in both cases it only looks up replies.  A call
that fails records no reply.
-/

namespace DocumentStore

/-- What a recorded reply answers. -/
def Reply.answer : Reply → Store.Answer
  | single _ result => .result result
  | member result => .result result
  | committed receipt => .receipt receipt

/-- What a call of a kind gets for a key with a recorded reply. -/
def Reply.given
    (reply : Reply)
    (kind? : Option ReplyKind)
    (key : String) :
    Except StoreError Store.Answer :=
  if kind? = some reply.kind then .ok reply.answer else .error (.keyReused key reply.kind)

namespace Store

variable {s : Store} {moment : Moment}

/-! ### Calls that succeed -/

/-- A write that succeeds under a key is known. -/
theorem known?_of_write
    {tenant actor key : String}
    {write : Write}
    {result : WriteResult}
    (hok : (s.write moment tenant actor write (some key)).1 = .ok result) :
    (s.write moment tenant actor write (some key)).2.known? (tenant, key) =
      some (.single write.kind result) := by
  have hfound := @known?_lookupReply_of_eq_some s tenant key moment.instant
    (.single write.kind result)
  have hwritten := s.written_write moment tenant actor write key
  generalize s.write moment tenant actor write (some key) = response at hwritten hok ⊢
  obtain ⟨answer, final⟩ := response
  cases hwritten with
  | answered hlookup =>
      cases hok
      rw [hlookup] at hfound
      exact hfound rfl
  | refused =>
      cases hok
  | failed =>
      cases hok
  | carriedOut hlookup hrun =>
      cases hok
      exact known?_record_self _ _ _ _ _

/-- A commit that succeeds is known by its id. -/
theorem known?_of_commit
    {tx : Transaction}
    {actor : String}
    {receipt : Receipt}
    (hok : (s.commit moment tx actor).1 = .ok receipt) :
    (s.commit moment tx actor).2.known? (tx.tenant, tx.id) = some (.committed receipt) := by
  have hfound := @known?_lookupReply_of_eq_some s tx.tenant tx.id moment.instant
    (.committed receipt)
  have hcommitted := s.committed_commit moment tx actor
  generalize s.commit moment tx actor = response at hcommitted hok ⊢
  obtain ⟨answer, final⟩ := response
  cases hcommitted with
  | answered hlookup =>
      cases hok
      rw [hlookup] at hfound
      exact hfound rfl
  | refused =>
      cases hok
  | memberRefused =>
      cases hok
  | failed =>
      cases hok
  | carriedOut hlookup hderived hchecked hrun =>
      cases hok
      exact known?_record_self _ _ _ _ _

theorem exists_of_answering_eq_ok
    {α : Type}
    {f : α → Answer}
    {served : Except StoreError α × Store}
    {answer : Answer}
    (h : (answering f served).1 = .ok answer) :
    ∃ a, served.1 = .ok a ∧ f a = answer := by
  obtain ⟨result, after⟩ := served
  cases result with
  | error e =>
      cases h
  | ok a =>
      exact ⟨a, rfl, Except.ok.inj h⟩

/-- A call that succeeds under a key is known with its kind and its answer. -/
theorem exists_known?_of_serve
    {call : Call}
    {key : String × String}
    {answer : Answer}
    (hok : (s.serve moment call).1 = .ok answer)
    (hkey : call.key? = some key) :
    ∃ reply, (s.serve moment call).2.known? key = some reply ∧
      call.kind? = some reply.kind ∧ reply.answer = answer := by
  have hserved := s.served_serve moment call
  generalize s.serve moment call = response at hserved hok ⊢
  cases hserved with
  | pathless hpath e =>
      cases hok
  | @write _ tenant actor write replyKey hwrites =>
      rw [hwrites.key?_eq] at hkey
      obtain ⟨k, rfl, rfl⟩ := Option.map_eq_some_iff.1 hkey
      obtain ⟨result, hresult, rfl⟩ := exists_of_answering_eq_ok hok
      refine ⟨.single write.kind result, known?_of_write hresult, ?_, rfl⟩
      rw [hwrites.kind?_eq, Reply.kind_single]
  | commit tx actor =>
      cases hkey
      obtain ⟨receipt, hreceipt, rfl⟩ := exists_of_answering_eq_ok hok
      exact ⟨.committed receipt, known?_of_commit hreceipt, rfl, rfl⟩
  | sweep =>
      cases hkey

/-! ### Calls under known keys -/

/-- A lookup of a known key finds its reply, unless replies are dropped. -/
theorem lookupReply_fst_of_known?
    {tenant key : String}
    {instant : Nat}
    {reply : Reply}
    (hknown : s.known? (tenant, key) = some reply)
    (hkept : (s.lookupReply tenant key instant).2.dropped ≤ s.dropped) :
    (s.lookupReply tenant key instant).1 = some reply := by
  have hle := (s.remembers_lookupReply tenant key instant).dropped_le
  rw [lookupReply_fst_of_dropped_eq (Nat.le_antisymm hkept hle), hknown]

/-- A write that finds a reply under its key gets what that reply gives. -/
theorem write_of_reply?
    {tenant key : String}
    {reply : Reply}
    (hfound : s.reply? tenant key moment.instant = some reply)
    (actor : String)
    (write : Write) :
    (answering .result (s.write moment tenant actor write (some key))).1 =
        reply.given (some write.kind.replyKind) key ∧
      Consulted s (s.write moment tenant actor write (some key)).2 := by
  unfold reply? at hfound
  have hconsulted := s.consulted_lookupReply tenant key moment.instant
  have hwritten := s.written_write moment tenant actor write key
  generalize s.write moment tenant actor write (some key) = response at hwritten ⊢
  obtain ⟨answer, final⟩ := response
  unfold Reply.given
  cases hwritten with
  | answered hlookup =>
      rw [hlookup] at hfound hconsulted
      obtain rfl := Option.some.inj hfound
      rw [if_pos (congrArg some (Reply.kind_single _ _).symm)]
      exact ⟨rfl, hconsulted⟩
  | refused hlookup hkind =>
      rw [hlookup] at hfound hconsulted
      obtain rfl := Option.some.inj hfound
      rw [if_neg fun h => hkind (Option.some.inj h).symm]
      exact ⟨rfl, hconsulted⟩
  | failed hlookup hrun =>
      rw [hlookup] at hfound
      cases hfound
  | carriedOut hlookup hrun =>
      rw [hlookup] at hfound
      cases hfound

/-- A write under a known key gets what its reply gives, unless replies are dropped. -/
theorem write_of_known?
    {tenant actor key : String}
    {write : Write}
    {reply : Reply}
    (hknown : s.known? (tenant, key) = some reply)
    (hkept : (s.write moment tenant actor write (some key)).2.dropped ≤ s.dropped) :
    (answering .result (s.write moment tenant actor write (some key))).1 =
        reply.given (some write.kind.replyKind) key ∧
      Consulted s (s.write moment tenant actor write (some key)).2 := by
  have hle := (s.remembers_lookupReply_write moment tenant actor write key).dropped_le
  exact write_of_reply? (lookupReply_fst_of_known? hknown (Nat.le_trans hle hkept)) actor write

/-- A commit that finds a reply under its id gets what that reply gives. -/
theorem commit_of_reply?
    {tx : Transaction}
    {reply : Reply}
    (hfound : s.reply? tx.tenant tx.id moment.instant = some reply)
    (actor : String) :
    (answering .receipt (s.commit moment tx actor)).1 = reply.given (some .commit) tx.id ∧
      Consulted s (s.commit moment tx actor).2 := by
  unfold reply? at hfound
  have hconsulted := s.consulted_lookupReply tx.tenant tx.id moment.instant
  have hcommitted := s.committed_commit moment tx actor
  generalize s.commit moment tx actor = response at hcommitted ⊢
  obtain ⟨answer, final⟩ := response
  unfold Reply.given
  cases hcommitted with
  | answered hlookup =>
      rw [hlookup] at hfound hconsulted
      obtain rfl := Option.some.inj hfound
      exact ⟨rfl, hconsulted⟩
  | refused hlookup hkind =>
      rw [hlookup] at hfound hconsulted
      obtain rfl := Option.some.inj hfound
      rw [if_neg fun h => hkind (Option.some.inj h).symm]
      exact ⟨rfl, hconsulted⟩
  | memberRefused hlookup hderived =>
      rw [hlookup] at hfound
      cases hfound
  | failed hlookup hderived hrefusal =>
      rw [hlookup] at hfound
      cases hfound
  | carriedOut hlookup hderived hchecked hrun =>
      rw [hlookup] at hfound
      cases hfound

/-- A commit under a known id gets what its reply gives, unless replies are dropped. -/
theorem commit_of_known?
    {tx : Transaction}
    {actor : String}
    {reply : Reply}
    (hknown : s.known? (tx.tenant, tx.id) = some reply)
    (hkept : (s.commit moment tx actor).2.dropped ≤ s.dropped) :
    (answering .receipt (s.commit moment tx actor)).1 = reply.given (some .commit) tx.id ∧
      Consulted s (s.commit moment tx actor).2 := by
  have hle := (s.remembers_lookupReply_commit moment tx actor).dropped_le
  exact commit_of_reply? (lookupReply_fst_of_known? hknown (Nat.le_trans hle hkept)) actor

/-- A call that finds a reply under its key gets what that reply gives. -/
theorem serve_of_reply?
    {call : Call}
    {key : String × String}
    {reply : Reply}
    (hfound : s.reply? key.1 key.2 moment.instant = some reply)
    (hkey : call.key? = some key)
    (hpath : call.HasPath) :
    (s.serve moment call).1 = reply.given call.kind? key.2 ∧
      Consulted s (s.serve moment call).2 := by
  have hserved := s.served_serve moment call
  generalize s.serve moment call = response at hserved ⊢
  cases hserved with
  | pathless hpathless e =>
      exact absurd hpath hpathless
  | @write _ tenant actor write replyKey hwrites =>
      rw [hwrites.key?_eq] at hkey
      obtain ⟨k, rfl, rfl⟩ := Option.map_eq_some_iff.1 hkey
      rw [hwrites.kind?_eq]
      exact write_of_reply? hfound actor write
  | commit tx actor =>
      cases hkey
      exact commit_of_reply? hfound actor
  | sweep =>
      cases hkey

/-- A call under a known key gets what its reply gives, unless replies are dropped. -/
theorem serve_of_known?
    {call : Call}
    {key : String × String}
    {reply : Reply}
    (hknown : s.known? key = some reply)
    (hkey : call.key? = some key)
    (hpath : call.HasPath)
    (hkept : (s.serve moment call).2.dropped ≤ s.dropped) :
    (s.serve moment call).1 = reply.given call.kind? key.2 ∧
      Consulted s (s.serve moment call).2 := by
  have hserved := s.served_serve moment call
  generalize s.serve moment call = response at hserved hkept ⊢
  cases hserved with
  | pathless hpathless e =>
      exact absurd hpath hpathless
  | write hwrites =>
      rw [hwrites.key?_eq] at hkey
      obtain ⟨k, rfl, rfl⟩ := Option.map_eq_some_iff.1 hkey
      rw [hwrites.kind?_eq]
      exact write_of_known? hknown hkept
  | commit tx actor =>
      cases hkey
      exact commit_of_known? hknown hkept
  | sweep =>
      cases hkey

/-! ### Calls that fail -/

theorem replies_of_serve_eq_error
    {call : Call}
    {e : StoreError}
    (herror : (s.serve moment call).1 = .error e) :
    ∀ entry ∈ (s.serve moment call).2.replies.entries, entry ∈ s.replies.entries :=
  (spared_serve herror).replies

end Store
end DocumentStore
