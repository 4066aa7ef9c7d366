import DocumentStore.Proofs.Store.Entries
import DocumentStore.Proofs.Store.Outcomes

/-!
# Calls of many clients

Clients call the store one after the other, in any order and at any moments.
A call leaves entries of the writes that it asks for.
-/

namespace DocumentStore
namespace Store

/-- A call that may change the store. -/
inductive Call where
  | create
      (tenant actor raw : String)
      (data : Json)
      (key : Option String)
  | update
      (tenant actor raw : String)
      (data : Json)
      (ifVersion : Option UInt64)
      (merge : Bool)
      (key : Option String)
  | delete
      (tenant actor raw : String)
      (ifVersion : Option UInt64)
      (key : Option String)
  | commit
      (tx : Transaction)
      (actor : String)
  | sweep

/-- What a call that succeeds returns. -/
inductive Answer where
  | result (result : WriteResult)
  | receipt (receipt : Receipt)
  | swept (dropped : Nat)
deriving DecidableEq

/-- What a request returned as the answer to a call. -/
def answering
    {α : Type}
    (answer : α → Answer)
    (served : Except StoreError α × Store) :
    Except StoreError Answer × Store :=
  (served.1.map answer, served.2)

/-- Serve a call at a moment. -/
def serve
    (s : Store)
    (moment : Moment) :
    Call → Except StoreError Answer × Store
  | .create tenant actor raw data key =>
      answering .result (s.create moment tenant actor raw data key)
  | .update tenant actor raw data ifVersion merge key =>
      answering .result (s.update moment tenant actor raw data ifVersion merge key)
  | .delete tenant actor raw ifVersion key =>
      answering .result (s.delete moment tenant actor raw ifVersion key)
  | .commit tx actor => answering .receipt (s.commit moment tx actor)
  | .sweep => (.ok (.swept (s.sweep moment.instant).1), (s.sweep moment.instant).2)

/-- The store after some calls, one after the other. -/
def afterCalls
    (s : Store)
    (calls : List (Moment × Call)) :
    Store :=
  calls.foldl (fun s call => (s.serve call.1 call.2).2) s

/-- Calls were served one after the other, and indexes declared and removed in between. -/
inductive Run (start : Store) : List (Moment × Call) → Store → Prop
  | start : Run start [] start
  | serve
      {calls : List (Moment × Call)}
      {s : Store}
      (h : Run start calls s)
      (moment : Moment)
      (call : Call) :
      Run start (calls ++ [(moment, call)]) (s.serve moment call).2
  | createIndex
      {calls : List (Moment × Call)}
      {s : Store}
      (h : Run start calls s)
      (definition : IndexDefinition) :
      Run start calls (s.createIndex definition).2
  | dropIndex
      {calls : List (Moment × Call)}
      {s : Store}
      (h : Run start calls s)
      (name : String) :
      Run start calls (s.dropIndex name).2

/-- A run may go on from where another one ended. -/
theorem Run.trans
    {start s s' : Store}
    {calls more : List (Moment × Call)}
    (h : Run start calls s)
    (h' : Run s more s') :
    Run start (calls ++ more) s' := by
  induction h' with
  | start =>
      rw [List.append_nil]
      exact h
  | serve _ moment call ih =>
      rw [← List.append_assoc]
      exact ih.serve moment call
  | createIndex _ definition ih =>
      exact ih.createIndex definition
  | dropIndex _ name ih =>
      exact ih.dropIndex name

/-- More calls may be served. -/
theorem Run.afterCalls
    {start s : Store}
    {calls : List (Moment × Call)}
    (h : Run start calls s)
    (more : List (Moment × Call)) :
    Run start (calls ++ more) (s.afterCalls more) := by
  induction more generalizing calls s with
  | nil =>
      rw [List.append_nil]
      exact h
  | cons call rest ih =>
      have hmore := ih (h.serve call.1 call.2)
      rw [List.append_assoc] at hmore
      exact hmore

namespace Call

/-- A call asks for a single write, on a path that it names. -/
inductive Writes :
    Call → (tenant actor : String) → Write → (key : Option String) → Prop
  | create
      {tenant actor raw : String}
      {data : Json}
      {key : Option String}
      {path : DocumentPath}
      (hpath : readPath raw = .ok path) :
      Writes (.create tenant actor raw data key) tenant actor (.create path data) key
  | update
      {tenant actor raw : String}
      {data : Json}
      {ifVersion : Option UInt64}
      {merge : Bool}
      {key : Option String}
      {path : DocumentPath}
      (hpath : readPath raw = .ok path) :
      Writes (.update tenant actor raw data ifVersion merge key) tenant actor
        (.update path data ifVersion merge) key
  | delete
      {tenant actor raw : String}
      {ifVersion : Option UInt64}
      {key : Option String}
      {path : DocumentPath}
      (hpath : readPath raw = .ok path) :
      Writes (.delete tenant actor raw ifVersion key) tenant actor (.delete path ifVersion) key

/-- A call names no path, or one that can be read. -/
def HasPath : Call → Prop
  | create _ _ raw _ _ => ∃ path, readPath raw = .ok path
  | update _ _ raw _ _ _ _ => ∃ path, readPath raw = .ok path
  | delete _ _ raw _ _ => ∃ path, readPath raw = .ok path
  | commit .. => True
  | sweep => True

/-- The tenant and the key under which the reply to a call is recorded, if it is. -/
def key? : Call → Option (String × String)
  | create tenant _ _ _ key => key.map (tenant, ·)
  | update tenant _ _ _ _ _ key => key.map (tenant, ·)
  | delete tenant _ _ _ key => key.map (tenant, ·)
  | commit tx _ => some (tx.tenant, tx.id)
  | sweep => none

/-- The kind of the reply to a call that succeeds. -/
def kind? : Call → Option ReplyKind
  | create .. => some .create
  | update .. => some .update
  | delete .. => some .delete
  | commit .. => some .commit
  | sweep => none

theorem Writes.key?_eq
    {call : Call}
    {tenant actor : String}
    {write : Write}
    {key : Option String}
    (h : call.Writes tenant actor write key) :
    call.key? = key.map (tenant, ·) := by
  cases h <;> rfl

theorem Writes.kind?_eq
    {call : Call}
    {tenant actor : String}
    {write : Write}
    {key : Option String}
    (h : call.Writes tenant actor write key) :
    call.kind? = some write.kind.replyKind := by
  cases h <;> rfl

end Call

/-- A call that asks for a single write is served by it. -/
theorem serve_of_writes
    {call : Call}
    {tenant actor : String}
    {write : Write}
    {key : Option String}
    (h : call.Writes tenant actor write key)
    (s : Store)
    (moment : Moment) :
    s.serve moment call = answering .result (s.write moment tenant actor write key) := by
  cases h with
  | create hpath =>
      rw [serve]
      unfold Store.create
      rw [hpath]
  | update hpath =>
      rw [serve]
      unfold Store.update
      rw [hpath]
  | delete hpath =>
      rw [serve]
      unfold Store.delete
      rw [hpath]

/-- The ways in which a call is served. -/
inductive Served
    (s : Store)
    (moment : Moment) :
    Call → Except StoreError Answer × Store → Prop
  | pathless
      {call : Call}
      (hpath : ¬ call.HasPath)
      (e : StoreError) :
      Served s moment call (.error e, s)
  | write
      {call : Call}
      {tenant actor : String}
      {write : Write}
      {key : Option String}
      (hwrites : call.Writes tenant actor write key) :
      Served s moment call (answering .result (s.write moment tenant actor write key))
  | commit
      (tx : Transaction)
      (actor : String) :
      Served s moment (.commit tx actor) (answering .receipt (s.commit moment tx actor))
  | sweep :
      Served s moment .sweep
        (.ok (.swept (s.sweep moment.instant).1), (s.sweep moment.instant).2)

/-- A call is served in one of the listed ways. -/
theorem served_serve
    (s : Store)
    (moment : Moment)
    (call : Call) :
    Served s moment call (s.serve moment call) := by
  -- the three kinds of single writes go alike
  have hpathless : ∀ {raw : String} {e : StoreError}, readPath raw = .error e →
      ¬ ∃ path, readPath raw = .ok path := by
    rintro raw e herror ⟨path, hpath⟩
    rw [herror] at hpath
    cases hpath
  cases call with
  | create tenant actor raw data key =>
      rw [serve]
      unfold Store.create
      cases hpath : readPath raw with
      | error e =>
          refine .pathless ?_ e
          exact hpathless hpath
      | ok path =>
          exact .write (.create hpath)
  | update tenant actor raw data ifVersion merge key =>
      rw [serve]
      unfold Store.update
      cases hpath : readPath raw with
      | error e =>
          refine .pathless ?_ e
          exact hpathless hpath
      | ok path =>
          exact .write (.update hpath)
  | delete tenant actor raw ifVersion key =>
      rw [serve]
      unfold Store.delete
      cases hpath : readPath raw with
      | error e =>
          refine .pathless ?_ e
          exact hpathless hpath
      | ok path =>
          exact .write (.delete hpath)
  | commit tx actor =>
      exact .commit tx actor
  | sweep =>
      exact .sweep

/-- The tenant that a call is made for. -/
def Call.tenant? : Call → Option String
  | create tenant .. => some tenant
  | update tenant .. => some tenant
  | delete tenant .. => some tenant
  | commit tx _ => some tx.tenant
  | sweep => none

/-- The writes that a call asks for, with the origins of their entries. -/
def Call.originated : Call → List (Write × Origin)
  | create _ actor raw data key => Write.requested actor raw key fun path => .create path data
  | update _ actor raw data ifVersion merge key =>
      Write.requested actor raw key fun path => .update path data ifVersion merge
  | delete _ actor raw ifVersion key =>
      Write.requested actor raw key fun path => .delete path ifVersion
  | commit tx actor => Write.originated tx.id actor 0 tx.writes
  | sweep => []

@[simp] theorem snd_answering
    {α : Type}
    (answer : α → Answer)
    (served : Except StoreError α × Store) :
    (answering answer served).2 = served.2 :=
  rfl

theorem consulted_sweep
    (s : Store)
    (instant : Nat) :
    Consulted s (s.sweep instant).2 :=
  ⟨fun _ => Cache.mem_of_mem_sweep, rfl⟩

/-- A call leaves entries of its writes. -/
theorem logs_serve
    (s : Store)
    (moment : Moment)
    (call : Call)
    {tenant : String}
    (h : ∀ t ∈ call.tenant?, t = tenant) :
    Logs tenant call.originated s (s.serve moment call).2 := by
  cases call with
  | create tenant' actor raw data key =>
      obtain rfl : tenant' = tenant := h tenant' rfl
      rw [serve, snd_answering, Call.originated]
      exact s.logs_create moment tenant' actor raw data key
  | update tenant' actor raw data ifVersion merge key =>
      obtain rfl : tenant' = tenant := h tenant' rfl
      rw [serve, snd_answering, Call.originated]
      exact s.logs_update moment tenant' actor raw data ifVersion merge key
  | delete tenant' actor raw ifVersion key =>
      obtain rfl : tenant' = tenant := h tenant' rfl
      rw [serve, snd_answering, Call.originated]
      exact s.logs_delete moment tenant' actor raw ifVersion key
  | commit tx actor =>
      obtain rfl : tx.tenant = tenant := h tx.tenant rfl
      rw [serve, snd_answering, Call.originated]
      exact s.logs_commit moment tx actor
  | sweep =>
      rw [serve, Call.originated]
      exact .of_consulted (s.consulted_sweep moment.instant) _ _

/-- Every call has a tenant that its writes are in. -/
theorem exists_logs_serve
    (s : Store)
    (moment : Moment)
    (call : Call) :
    ∃ tenant, Logs tenant call.originated s (s.serve moment call).2 := by
  cases htenant : call.tenant? with
  | some tenant =>
      refine ⟨tenant, s.logs_serve moment call fun t ht => ?_⟩
      rw [htenant] at ht
      exact (Option.some.inj ht).symm
  | none =>
      refine ⟨"", s.logs_serve moment call fun t ht => ?_⟩
      rw [htenant] at ht
      cases ht

end Store
end DocumentStore
