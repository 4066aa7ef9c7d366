import DocumentStore.Proofs.Store.Keys

/-!
# Calls that fail change nothing

A call can fail before it has looked at the store, for a key that was used for
something else, in the check of a commit, or when its single write is carried
out.  At each of these points nothing has been written, logged or entered into
an index, and no reply has been recorded.  What may have changed is the clock,
which a failing creation or update moves on, and the table of replies, from
which a lookup drops what has expired.
-/

namespace DocumentStore
namespace Store

variable {s : Store} {moment : Moment}

/-- Nothing but the clock changed and replies were dropped or reordered. -/
structure Spared (before after : Store) : Prop where
  /-- No reply was added. -/
  replies : ∀ e ∈ after.replies.entries, e ∈ before.replies.entries
  /-- All else is as before. -/
  rest : after = { before with replies := after.replies, clock := after.clock }

namespace Spared

theorem refl
    (s : Store) :
    Spared s s :=
  ⟨fun _ h => h, rfl⟩

theorem trans
    {s s' s'' : Store}
    (h : Spared s s')
    (h' : Spared s' s'') :
    Spared s s'' where
  replies e he := h.replies e (h'.replies e he)
  rest := by
    rw [h'.rest, h.rest]

theorem documents_eq
    {s s' : Store}
    (h : Spared s s') :
    s'.documents = s.documents := by
  rw [h.rest]

theorem log_eq
    {s s' : Store}
    (h : Spared s s') :
    s'.log = s.log := by
  rw [h.rest]

theorem catalog_eq
    {s s' : Store}
    (h : Spared s s') :
    s'.catalog = s.catalog := by
  rw [h.rest]

end Spared

theorem Consulted.spared
    {s s' : Store}
    (h : Consulted s s') :
    Spared s s' where
  replies := h.replies
  rest := by
    rw [h.rest]

theorem WrittenNow.spared
    {tenant actor : String}
    {write : Write}
    {key : Option String}
    {e : StoreError}
    {after : Store}
    (h : WrittenNow s tenant actor write key (.error e) after) :
    Spared s after := by
  cases h with
  | failed e clock =>
      exact ⟨fun _ he => he, rfl⟩

/-- A write that fails spares the store. -/
theorem spared_write
    {tenant actor : String}
    {write : Write}
    {key : Option String}
    {e : StoreError}
    (herror : (s.write moment tenant actor write key).1 = .error e) :
    Spared s (s.write moment tenant actor write key).2 := by
  cases key with
  | none =>
      have hnow := s.writtenNow_writeNow moment tenant actor write none
      rw [show (s.writeNow moment tenant actor write none).1 = .error e from herror] at hnow
      exact hnow.spared
  | some k =>
      have hlookup := (s.consulted_lookupReply tenant k moment.instant).spared
      have hwritten := s.written_write moment tenant actor write k
      generalize s.write moment tenant actor write (some k) = response at hwritten herror ⊢
      obtain ⟨answer, final⟩ := response
      cases hwritten with
      | answered heq =>
          cases herror
      | refused heq hkind =>
          rw [heq] at hlookup
          exact hlookup
      | failed heq hrun =>
          rw [heq] at hlookup
          exact hlookup.trans hrun.spared
      | carriedOut heq hrun =>
          cases herror

/-- A commit that fails spares the store: it only looked up replies. -/
theorem spared_commit
    {tx : Transaction}
    {actor : String}
    {e : StoreError}
    (herror : (s.commit moment tx actor).1 = .error e) :
    Spared s (s.commit moment tx actor).2 := by
  have hlookup := s.consulted_lookupReply tx.tenant tx.id moment.instant
  have hconcluded := s.concluded_commit moment tx actor
  generalize s.commit moment tx actor = response at hconcluded herror ⊢
  cases hconcluded with
  | looked h =>
      exact (hlookup.trans h.consulted).spared
  | carriedOut hprepared hrun =>
      cases herror

/-- What fails the request behind a call fails the call, and nothing else does. -/
theorem answering_fst_eq_error_iff
    {α : Type}
    {f : α → Answer}
    {served : Except StoreError α × Store}
    {e : StoreError} :
    (answering f served).1 = .error e ↔ served.1 = .error e := by
  obtain ⟨result, after⟩ := served
  cases result with
  | error e' =>
      constructor <;> intro h <;> cases h <;> rfl
  | ok a =>
      constructor <;> intro h <;> cases h

/-- A call that fails spares the store. -/
theorem spared_serve
    {call : Call}
    {e : StoreError}
    (herror : (s.serve moment call).1 = .error e) :
    Spared s (s.serve moment call).2 := by
  have hserved := s.served_serve moment call
  generalize s.serve moment call = response at hserved herror ⊢
  cases hserved with
  | pathless hpath e =>
      exact .refl s
  | write hwrites =>
      exact spared_write (answering_fst_eq_error_iff.1 herror)
  | commit tx actor =>
      exact spared_commit (answering_fst_eq_error_iff.1 herror)
  | sweep =>
      cases herror

theorem spared_of_serve_eq
    {α : Type}
    {f : α → Answer}
    {served : Except StoreError α × Store}
    {call : Call}
    {e : StoreError}
    (hserve : s.serve moment call = answering f served)
    (herror : served.1 = .error e) :
    Spared s served.2 := by
  have hspared := @spared_serve s moment call e
  rw [hserve] at hspared
  exact hspared (answering_fst_eq_error_iff.2 herror)

end Store
end DocumentStore
