import DocumentStore.Proofs.Path
import DocumentStore.Proofs.Store.Moves
import DocumentStore.Proofs.Store.Replies

/-!
# Commits and requests made one after the other

A commit checks its writes on the versions that the writes before them would
leave, and only then carries them out.  Both are compared with one run on what
the store is reduced to when times and tags are forgotten: the check fails
exactly where that run fails, and the writes end where it ends.  Requests made
one after the other without keys are compared with the same run, so that a
commit and such requests agree.
-/

namespace DocumentStore

namespace Timeless

/-- A write fails exactly as its check does. -/
theorem perform_eq_error_iff
    {t : Timeless}
    {tenant actor : String}
    {write : Write}
    {e : StoreError} :
    t.perform tenant actor write = .error e ↔
      write.check tenant (t.documents.version? tenant write.path) = .error e := by
  have happly : t.documents.apply tenant write .epoch = .error e ↔
      write.check tenant (t.documents.version? tenant write.path) = .error e :=
    Documents.apply_eq_error_iff
  rw [← happly]
  unfold perform
  split
  · next e' he =>
      simp [he]
  · next hok =>
      simp [hok]
  · next hok =>
      simp [hok]

/-- A write that succeeds has been applied to the documents. -/
theorem applied_of_perform
    {t t' : Timeless}
    {tenant actor : String}
    {write : Write}
    {result : WriteResult}
    (h : t.perform tenant actor write = .ok (result, t')) :
    ∃ change, Documents.Applied t.documents tenant .epoch write change t'.documents := by
  unfold perform at h
  split at h
  · cases h
  · next documents happly =>
      cases h
      have happlied := Documents.applied_of_apply happly
      cases happlied with
      | absent hnone =>
          exact ⟨none, .absent hnone⟩
  · next change documents happly =>
      cases h
      exact ⟨some change, Documents.applied_of_apply happly⟩

end Timeless

namespace Store

/-! ### The check of a commit -/

/-- The version of a document as the check of a commit sees it. -/
def overlaid
    (s : Store)
    (tenant : String)
    (overlay : List (DocumentPath × Option Nat))
    (path : DocumentPath) :
    Option Nat :=
  match overlay.find? fun v => v.1 = path with
  | some v => v.2
  | none => s.documents.version? tenant path

/-- A noted version is seen at its path, and nothing changes elsewhere. -/
theorem overlaid_cons
    (s : Store)
    (tenant : String)
    (overlay : List (DocumentPath × Option Nat))
    (path other : DocumentPath)
    (version : Option Nat) :
    s.overlaid tenant ((path, version) :: overlay) other =
      if other = path then version else s.overlaid tenant overlay other := by
  unfold overlaid
  rw [List.find?_cons]
  by_cases hp : path = other
  · simp [hp]
  · simp [hp, Ne.symm hp]

/-- What the check of a commit does with a write that has no recorded result. -/
theorem failingWrite?_cons_none
    (s : Store)
    (tx : Transaction)
    (position : Nat)
    (overlay : List (DocumentPath × Option Nat))
    (write : Write)
    (rest : List (Write × Option WriteResult)) :
    s.failingWrite? tx position overlay ((write, none) :: rest) =
      match write.check tx.tenant (s.overlaid tx.tenant overlay write.path) with
      | .error cause => some (.aborted tx.id position cause)
      | .ok next => s.failingWrite? tx (position + 1) ((write.path, next) :: overlay) rest :=
  rfl

/--
The check of a commit finds the first write at which the run fails.  It sees
the versions that the run has reached.
-/
theorem failingWrite?_eq
    (s : Store)
    (tx : Transaction)
    (actor : String)
    (pending : List (Write × Option WriteResult)) :
    ∀ (position : Nat) (overlay : List (DocumentPath × Option Nat)) (t : Timeless),
      (∀ path, s.overlaid tx.tenant overlay path = t.documents.version? tx.tenant path) →
      s.failingWrite? tx position overlay pending =
        match t.performEach tx.tenant actor position pending with
        | .ok _ => none
        | .error (failed, cause) => some (.aborted tx.id failed cause) := by
  induction pending with
  | nil =>
      intro position overlay t hversions
      rfl
  | cons head rest ih =>
      intro position overlay t hversions
      obtain ⟨write, prior⟩ := head
      cases prior with
      | some prior =>
          rw [failingWrite?, ih (position + 1) overlay t hversions, Timeless.performEach]
          cases t.performEach tx.tenant actor (position + 1) rest <;> rfl
      | none =>
          have hcurrent := hversions write.path
          rw [failingWrite?_cons_none, hcurrent, Timeless.performEach]
          cases hperform : t.perform tx.tenant actor write with
          | error e =>
              rw [Timeless.perform_eq_error_iff.1 hperform]
          | ok r =>
              obtain ⟨result, t'⟩ := r
              obtain ⟨change, happlied⟩ := Timeless.applied_of_perform hperform
              cases hcheck : write.check tx.tenant
                  (t.documents.version? tx.tenant write.path) with
              | error e =>
                  rw [Timeless.perform_eq_error_iff.2 hcheck] at hperform
                  cases hperform
              | ok next =>
                  dsimp only
                  rw [ih (position + 1) ((write.path, next) :: overlay) t']
                  · cases t'.performEach tx.tenant actor (position + 1) rest <;> rfl
                  · intro path
                    rw [overlaid_cons]
                    split
                    · next hp =>
                        rw [hp, Documents.version?_of_applied happlied hcheck]
                    · next hp =>
                        have hother : (⟨tx.tenant, path⟩ : DocumentKey) ≠
                            ⟨tx.tenant, write.path⟩ := by
                          simpa using hp
                        rw [hversions path]
                        unfold Documents.version?
                        rw [Documents.get?_of_applied_of_ne happlied hother]

/-! ### Runs of writes -/

/-- The results and the store of a run are those that a run without times and tags ends in. -/
def EndsIn
    {ε : Type}
    (run : Except ε (List WriteResult) × Store)
    (goal : Except ε (List WriteResult × Timeless)) :
    Prop :=
  run.1.map (fun results => (results.map WriteResult.untimed, run.2.timeless)) = goal

/-- Put a result before those of a run. -/
def prepend
    {ε : Type}
    (result : WriteResult)
    (run : Except ε (List WriteResult) × Store) :
    Except ε (List WriteResult) × Store :=
  (run.1.map (result :: ·), run.2)

namespace EndsIn

variable {ε : Type} {run : Except ε (List WriteResult) × Store}

theorem prepend
    {goal : Except ε (List WriteResult × Timeless)}
    (h : EndsIn run goal)
    (result : WriteResult) :
    EndsIn (prepend result run) (goal.map fun r => (result.untimed :: r.1, r.2)) := by
  obtain ⟨answer, s⟩ := run
  subst h
  cases answer <;> rfl

/-- A run that should succeed does. -/
theorem ok
    {results : List WriteResult}
    {t : Timeless}
    (h : EndsIn run (.ok (results, t))) :
    ∃ answer, run.1 = .ok answer ∧
      answer.map WriteResult.untimed = results ∧ run.2.timeless = t := by
  obtain ⟨answer, s⟩ := run
  cases answer with
  | error e =>
      cases h
  | ok answer =>
      cases h
      exact ⟨answer, rfl, rfl, rfl⟩

/-- A run that should fail does, with the same error. -/
theorem error
    {e : ε}
    (h : EndsIn run (.error e)) :
    run.1 = .error e := by
  obtain ⟨answer, s⟩ := run
  cases answer with
  | error e' =>
      cases h
      rfl
  | ok answer =>
      cases h

end EndsIn

/-! ### The writes of a commit -/

theorem timeless_record
    (s : Store)
    (tenant key : String)
    (reply : Reply)
    (instant : Nat) :
    (s.record tenant key reply instant).timeless = s.timeless :=
  rfl

theorem performAll_cons_some
    (tx : Transaction)
    (moment : Moment)
    (actor : String)
    (position : Nat)
    (write : Write)
    (prior : WriteResult)
    (rest : List (Write × Option WriteResult))
    (s : Store) :
    performAll tx moment actor position ((write, some prior) :: rest) s =
      prepend prior (performAll tx moment actor (position + 1) rest s) := by
  rw [performAll]
  obtain ⟨answer, s'⟩ := performAll tx moment actor (position + 1) rest s
  cases answer <;> rfl

theorem performAll_cons_none
    (tx : Transaction)
    (moment : Moment)
    (actor : String)
    (position : Nat)
    (write : Write)
    (rest : List (Write × Option WriteResult))
    (s : Store) :
    performAll tx moment actor position ((write, none) :: rest) s =
      let now := timeAfter s.clock (moment.wall position)
      let ticked := { s with clock := some now }
      let key := tx.derivedKey position
      match ticked.perform tx.tenant write ⟨actor, some key, some tx.id⟩ now with
      | .error e => (.error e, ticked)
      | .ok (result, s) =>
          prepend result (performAll tx moment actor (position + 1) rest
            (s.record tx.tenant key (.member result) moment.instant)) := by
  rw [performAll]
  dsimp only
  cases { s with clock := some (timeAfter s.clock (moment.wall position)) }.perform tx.tenant write
      ⟨actor, some (tx.derivedKey position), some tx.id⟩
      (timeAfter s.clock (moment.wall position)) with
  | error e =>
      rfl
  | ok performed =>
      obtain ⟨result, s'⟩ := performed
      dsimp only
      obtain ⟨answer, s''⟩ := performAll tx moment actor (position + 1) rest
        (s'.record tx.tenant (tx.derivedKey position) (.member result) moment.instant)
      cases answer <;> rfl

theorem mapError_map
    {ε ε' α β : Type}
    (f : ε → ε')
    (g : α → β)
    (x : Except ε α) :
    (x.map g).mapError f = (x.mapError f).map g := by
  cases x <;> rfl

/-- The writes of a commit end where the run ends. -/
theorem endsIn_performAll
    (tx : Transaction)
    (moment : Moment)
    (actor : String)
    (pending : List (Write × Option WriteResult)) :
    ∀ (position : Nat) (s : Store),
      EndsIn (performAll tx moment actor position pending s)
        ((s.timeless.performEach tx.tenant actor position pending).mapError Prod.snd) := by
  induction pending with
  | nil =>
      intro position s
      rfl
  | cons head rest ih =>
      intro position s
      obtain ⟨write, prior⟩ := head
      cases prior with
      | some prior =>
          rw [performAll_cons_some, Timeless.performEach, mapError_map]
          exact (ih (position + 1) s).prepend prior
      | none =>
          have hperform :=
            ({ s with clock := some (timeAfter s.clock (moment.wall position)) } :
              Store).perform_timeless tx.tenant write
                ⟨actor, some (tx.derivedKey position), some tx.id⟩
                (timeAfter s.clock (moment.wall position))
          -- the clock is not part of what the store is reduced to
          change _ = s.timeless.perform tx.tenant actor write at hperform
          rw [performAll_cons_none, Timeless.performEach, ← hperform]
          dsimp only
          split
          · next e he =>
              rw [he]
              rfl
          · next result s' hok =>
              rw [hok]
              change EndsIn _
                (((s'.timeless.performEach tx.tenant actor (position + 1) rest).map
                  fun r => (result.untimed :: r.1, r.2)).mapError Prod.snd)
              rw [mapError_map]
              exact (ih (position + 1) _).prepend result

/-! ### Requests made one after the other -/

/-- A write as a request of its own, without a key. -/
def issue
    (s : Store)
    (moment : Moment)
    (tenant actor : String) :
    Write → Except StoreError WriteResult × Store
  | .create path data => s.create moment tenant actor path.text data none
  | .update path data ifVersion merge =>
      s.update moment tenant actor path.text data ifVersion merge none
  | .delete path ifVersion => s.delete moment tenant actor path.text ifVersion none

/--
Make requests one after the other, each at a moment of its own.  The first one
that fails is reported with its position.
-/
def issueEach
    (moments : Nat → Moment)
    (tenant actor : String) :
    (position : Nat) → List Write → Store →
    Except (Nat × StoreError) (List WriteResult) × Store
  | _, [], s => (.ok [], s)
  | position, write :: rest, s =>
      match s.issue (moments position) tenant actor write with
      | (.error e, s) => (.error (position, e), s)
      | (.ok result, s) => prepend result (issueEach moments tenant actor (position + 1) rest s)

/-- A request without a key carries its write out at once. -/
theorem issue_eq_writeNow
    (s : Store)
    (moment : Moment)
    (tenant actor : String)
    (write : Write) :
    s.issue moment tenant actor write = s.writeNow moment tenant actor write none := by
  cases write with
  | create path data =>
      unfold issue Store.create
      dsimp only
      rw [readPath_text]
      rfl
  | update path data ifVersion merge =>
      unfold issue Store.update
      dsimp only
      rw [readPath_text]
      rfl
  | delete path ifVersion =>
      unfold issue Store.delete
      dsimp only
      rw [readPath_text]
      rfl

/-- A deletion that found no document has changed nothing. -/
theorem eq_of_perform_eq_deleted_false
    {s s' : Store}
    {tenant : String}
    {write : Write}
    {origin : Origin}
    {now : Timestamp}
    (h : s.perform tenant write origin now = .ok (.deleted false, s')) :
    s' = s := by
  unfold perform at h
  split at h
  · cases h
  · cases h
    rfl
  · next change documents happly =>
      have hresult : resultOf (some change) = .deleted false :=
        congrArg Prod.fst (Except.ok.inj h)
      unfold resultOf at hresult
      dsimp only at hresult
      split at hresult <;> cases hresult

/-- A write carried out at once is the same write on what the store is reduced to. -/
theorem writeNow_timeless
    (s : Store)
    (moment : Moment)
    (tenant actor : String)
    (write : Write)
    (key : Option String) :
    (s.writeNow moment tenant actor write key).1.map
        (fun result =>
          (result.untimed, (s.writeNow moment tenant actor write key).2.timeless)) =
      s.timeless.perform tenant actor write := by
  have hperform :=
    ({ s with clock := some (timeAfter s.clock (moment.wall 0)) } :
      Store).perform_timeless tenant write ⟨actor, key, none⟩
        (timeAfter s.clock (moment.wall 0))
  -- the clock is not part of what the store is reduced to
  change _ = s.timeless.perform tenant actor write at hperform
  rw [← hperform]
  unfold writeNow
  dsimp only
  split
  · next e he =>
      rw [he]
      rfl
  · next s' hok =>
      rw [hok, eq_of_perform_eq_deleted_false hok]
      rfl
  · next result s' _ hok =>
      rw [hok]
      rfl

theorem endsIn_issueEach
    (moments : Nat → Moment)
    (tenant actor : String)
    (writes : List Write) :
    ∀ (position : Nat) (s : Store),
      EndsIn (issueEach moments tenant actor position writes s)
        (s.timeless.performEach tenant actor position (writes.map fun w => (w, none))) := by
  induction writes with
  | nil =>
      intro position s
      rfl
  | cons write rest ih =>
      intro position s
      have hwrite := s.writeNow_timeless (moments position) tenant actor write none
      rw [List.map_cons, issueEach, Timeless.performEach, issue_eq_writeNow, ← hwrite]
      obtain ⟨answer, s'⟩ := s.writeNow (moments position) tenant actor write none
      cases answer with
      | error e =>
          rfl
      | ok result =>
          exact (ih (position + 1) s').prepend result

/-- Requests made one after the other are made of moves. -/
theorem moves_issueEach
    (moments : Nat → Moment)
    (tenant actor : String)
    (writes : List Write) :
    ∀ (position : Nat) (s : Store),
      Moves s (issueEach moments tenant actor position writes s).2 := by
  induction writes with
  | nil =>
      intro position s
      exact .refl
  | cons write rest ih =>
      intro position s
      have hwrite := s.moves_writeNow (moments position) tenant actor write none
      rw [issueEach, issue_eq_writeNow]
      split <;> rename_i h <;> rw [h] at hwrite
      · exact hwrite
      · exact hwrite.trans (ih (position + 1) _)

end Store

/-- The keys of a transaction: its id and those derived for its writes. -/
def Transaction.keys (tx : Transaction) : List String :=
  tx.id :: (List.range tx.writes.length).map tx.derivedKey

namespace Store

/-! ### Fresh transactions -/

/-- The version of a document, 0 if there is none. -/
def currentVersion
    (s : Store)
    (tenant : String)
    (path : DocumentPath) :
    Nat :=
  (s.documents.version? tenant path).getD 0

/-- Whether a document has changed since a transaction read it. -/
def Stale
    (s : Store)
    (tx : Transaction)
    (read : DocumentPath × Nat) :
    Prop :=
  s.currentVersion tx.tenant read.1 ≠ read.2

instance
    (s : Store)
    (tx : Transaction)
    (read : DocumentPath × Nat) :
    Decidable (s.Stale tx read) :=
  inferInstanceAs (Decidable (_ ≠ _))

theorem staleRead?_eq_none_iff
    {s : Store}
    {tx : Transaction}
    {order : ReadOrder} :
    s.staleRead? tx order = none ↔ ∀ read ∈ tx.reads, ¬ s.Stale tx read := by
  unfold staleRead? Stale currentVersion
  rw [List.findSome?_eq_none_iff]
  simp [(order.perm tx.reads).mem_iff]

/-- The error of a stale read names its path, the version it saw and the current one. -/
theorem exists_of_staleRead?_eq_some
    {s : Store}
    {tx : Transaction}
    {order : ReadOrder}
    {e : StoreError}
    (h : s.staleRead? tx order = some e) :
    ∃ read ∈ tx.reads, s.Stale tx read ∧
      e = .versionConflict read.1.text read.2 (s.currentVersion tx.tenant read.1) := by
  unfold staleRead? at h
  obtain ⟨read, hmem, hread⟩ := List.exists_of_findSome?_eq_some h
  dsimp only at hread
  split at hread
  · cases hread
  · next hne =>
      exact ⟨read, (order.perm tx.reads).mem_iff.1 hmem, hne, (Option.some.inj hread).symm⟩

/-- A commit of a transaction none of whose keys has a reply: looked up, checked and carried out. -/
theorem exists_commit_of_fresh
    {s : Store}
    {moment : Moment}
    {tx : Transaction}
    (actor : String)
    (hfresh : ∀ key ∈ tx.keys, s.reply? tx.tenant key moment.instant = none) :
    ∃ s', Consulted s s' ∧
      s.commit moment tx actor =
        match s'.refusal? tx moment.order (tx.writes.map fun _ => none) with
        | some e => (.error e, s')
        | none =>
            match performAll tx moment actor 0 (tx.writes.map fun w => (w, none)) s' with
            | (.error e, s'') => (.error e, s'')
            | (.ok results, s'') =>
                (.ok ⟨tx.id, results⟩,
                  s''.record tx.tenant tx.id (.committed ⟨tx.id, results⟩) moment.instant) := by
  have hid : s.reply? tx.tenant tx.id moment.instant = none :=
    hfresh tx.id (by simp [Transaction.keys])
  have hderived (i : Nat) (hi : i < 0 + tx.writes.length) :
      (s.lookupReply tx.tenant tx.id moment.instant).2.reply? tx.tenant (tx.derivedKey i)
        moment.instant = none := by
    refine reply?_lookupReply hid (hfresh _ ?_)
    simp only [Transaction.keys, List.mem_cons, List.mem_map, List.mem_range]
    exact .inr ⟨i, by omega, rfl⟩
  have hpriors := derivedReplies_of_reply?_eq_none fun i _ hi => hderived i hi
  have hconsulted := (s.consulted_lookupReply tx.tenant tx.id moment.instant).trans
    (consulted_derivedReplies tx moment.instant 0 tx.writes _)
  refine ⟨_, hconsulted, ?_⟩
  unfold commit
  obtain ⟨found, s₁, hlookup⟩ :
      ∃ found s₁, s.lookupReply tx.tenant tx.id moment.instant = (found, s₁) :=
    ⟨_, _, rfl⟩
  have hfound : found = none := by
    rw [reply?, hlookup] at hid
    exact hid
  subst hfound
  rw [hlookup] at hpriors ⊢
  dsimp only at hpriors ⊢
  obtain ⟨priors, s₂, hrun⟩ :
      ∃ priors s₂, derivedReplies tx moment.instant 0 tx.writes s₁ = (priors, s₂) :=
    ⟨_, _, rfl⟩
  rw [hrun] at hpriors ⊢
  dsimp only at hpriors ⊢
  subst hpriors
  have hnone :
      (!tx.writes.isEmpty &&
        (tx.writes.map fun _ => (none : Option WriteResult)).all Option.isSome) = false := by
    cases tx.writes <;> rfl
  have hzip :
      tx.writes.zip (tx.writes.map fun _ => (none : Option WriteResult)) =
        tx.writes.map fun w => (w, none) :=
    List.map_prod_left_eq_zip.symm
  dsimp only
  rw [hnone, hzip]
  rfl

/-- The ways in which the commit of a transaction without recorded replies ends. -/
inductive Settled
    (s : Store)
    (tx : Transaction)
    (actor : String) :
    Except StoreError Receipt → Store → Prop
  | stale
      {read : DocumentPath × Nat}
      {after : Store}
      (hmem : read ∈ tx.reads)
      (hstale : s.Stale tx read)
      (hafter : Consulted s after) :
      Settled s tx actor
        (.error (.versionConflict read.1.text read.2 (s.currentVersion tx.tenant read.1)))
        after
  | aborted
      {position : Nat}
      {cause : StoreError}
      {after : Store}
      (hreads : ∀ read ∈ tx.reads, ¬ s.Stale tx read)
      (hrun : s.timeless.performEach tx.tenant actor 0 (tx.writes.map fun w => (w, none)) =
        .error (position, cause))
      (hafter : Consulted s after) :
      Settled s tx actor (.error (.aborted tx.id position cause)) after
  | carriedOut
      {results : List WriteResult}
      {after : Store}
      (hreads : ∀ read ∈ tx.reads, ¬ s.Stale tx read)
      (hrun : s.timeless.performEach tx.tenant actor 0 (tx.writes.map fun w => (w, none)) =
        .ok (results.map WriteResult.untimed, after.timeless)) :
      Settled s tx actor (.ok ⟨tx.id, results⟩) after

theorem overlaid_nil
    (s : Store)
    (tenant : String)
    (path : DocumentPath) :
    s.overlaid tenant [] path = s.timeless.documents.version? tenant path :=
  (s.documents.version?_untimed tenant path).symm

/-- The commit of a transaction without recorded replies ends in one of the listed ways. -/
theorem settled_commit
    {s : Store}
    {moment : Moment}
    {tx : Transaction}
    (actor : String)
    (hfresh : ∀ key ∈ tx.keys, s.reply? tx.tenant key moment.instant = none) :
    Settled s tx actor (s.commit moment tx actor).1 (s.commit moment tx actor).2 := by
  obtain ⟨s', hs', hcommit⟩ := exists_commit_of_fresh actor hfresh
  have hcurrent (path : DocumentPath) :
      s'.currentVersion tx.tenant path = s.currentVersion tx.tenant path := by
    unfold currentVersion
    rw [hs'.documents_eq]
  have hstale (read : DocumentPath × Nat) : s'.Stale tx read ↔ s.Stale tx read := by
    unfold Stale
    rw [hcurrent]
  have hzip :
      tx.writes.zip (tx.writes.map fun _ => (none : Option WriteResult)) =
        tx.writes.map fun w => (w, none) :=
    List.map_prod_left_eq_zip.symm
  have hcheck := s'.failingWrite?_eq tx actor (tx.writes.map fun w => (w, none)) 0 []
    s'.timeless fun path => s'.overlaid_nil tx.tenant path
  have hperform := endsIn_performAll tx moment actor (tx.writes.map fun w => (w, none)) 0 s'
  rw [hs'.timeless_eq] at hcheck hperform
  rw [hcommit]
  unfold refusal?
  rw [hzip]
  cases hreads : s'.staleRead? tx moment.order with
  | some e =>
      obtain ⟨read, hmem, hread, rfl⟩ := exists_of_staleRead?_eq_some hreads
      dsimp only
      rw [hcurrent]
      exact .stale hmem ((hstale read).1 hread) hs'
  | none =>
      have hfine : ∀ read ∈ tx.reads, ¬ s.Stale tx read := fun read hmem hread =>
        staleRead?_eq_none_iff.1 hreads read hmem ((hstale read).2 hread)
      cases hrun : s.timeless.performEach tx.tenant actor 0
          (tx.writes.map fun w => (w, none)) with
      | error failure =>
          obtain ⟨position, cause⟩ := failure
          rw [hrun] at hcheck
          dsimp only
          rw [hcheck]
          exact .aborted hfine hrun hs'
      | ok goal =>
          obtain ⟨untimed, t⟩ := goal
          rw [hrun] at hcheck hperform
          obtain ⟨results, hanswer, huntimed, htimeless⟩ := hperform.ok
          obtain ⟨answer, s'', hall⟩ :
              ∃ answer s'', performAll tx moment actor 0
                (tx.writes.map fun w => (w, none)) s' = (answer, s'') :=
            ⟨_, _, rfl⟩
          rw [hall] at hanswer htimeless
          dsimp only at hanswer htimeless ⊢
          subst hanswer
          rw [hcheck, hall]
          refine .carriedOut hfine ?_
          rw [hrun, timeless_record, huntimed, htimeless]

/-- Two stores that went on from one and agree up to times and tags have added the same entries. -/
theorem exists_added_of_timeless_eq
    {s a b : Store}
    (ha : Moves s a)
    (hb : Moves s b)
    (h : a.timeless = b.timeless) :
    ∃ added added' : List LogEntry,
      a.log.entries = s.log.entries ++ added ∧
      b.log.entries = s.log.entries ++ added' ∧
      added.map LogEntry.untimed = added'.map LogEntry.untimed := by
  obtain ⟨added, hadded⟩ := ha.log_prefix
  obtain ⟨added', hadded'⟩ := hb.log_prefix
  have hlog : a.log.entries.map LogEntry.untimed = b.log.entries.map LogEntry.untimed :=
    congrArg (fun t => t.log.entries) h
  rw [← hadded, ← hadded', List.map_append, List.map_append] at hlog
  exact ⟨added, added', hadded.symm, hadded'.symm, List.append_cancel_left hlog⟩

/-! ### A commit and the requests it stands for -/

/--
A commit of a transaction none of whose keys has a live reply.  A stale read is
answered with its conflict.  Otherwise the commit succeeds exactly when its
writes would succeed as requests without keys, made one after the other: it
leaves their documents and adds their entries to the log, up to times and
tags.  When one of them would fail, the first such is named, with its own
error.  A commit that fails leaves the documents and the log alone and records
no reply.
-/
theorem commit_agrees_with_requests
    (s : Store)
    (moment : Moment)
    (tx : Transaction)
    (actor : String)
    (moments : Nat → Moment)
    (hfresh : ∀ key ∈ tx.keys, s.reply? tx.tenant key moment.instant = none) :
    let committed := s.commit moment tx actor
    let requested := issueEach moments tx.tenant actor 0 tx.writes s
    ((∃ read ∈ tx.reads, s.Stale tx read) →
      ∃ read ∈ tx.reads, s.Stale tx read ∧
        committed.1 = .error
          (.versionConflict read.1.text read.2 (s.currentVersion tx.tenant read.1))) ∧
    ((∀ read ∈ tx.reads, ¬ s.Stale tx read) →
      ((∃ receipt, committed.1 = .ok receipt) ↔ ∃ results, requested.1 = .ok results) ∧
      (∀ receipt results, committed.1 = .ok receipt → requested.1 = .ok results →
        receipt.transaction = tx.id ∧
        receipt.results.map WriteResult.untimed = results.map WriteResult.untimed ∧
        committed.2.documents.untimed = requested.2.documents.untimed ∧
        ∃ added added' : List LogEntry,
          committed.2.log.entries = s.log.entries ++ added ∧
          requested.2.log.entries = s.log.entries ++ added' ∧
          added.map LogEntry.untimed = added'.map LogEntry.untimed) ∧
      (∀ position cause, requested.1 = .error (position, cause) →
        committed.1 = .error (.aborted tx.id position cause))) ∧
    (∀ e, committed.1 = .error e →
      committed.2.documents = s.documents ∧ committed.2.log = s.log ∧
        ∀ entry ∈ committed.2.replies.entries, entry ∈ s.replies.entries) := by
  intro committed requested
  have hsettled : Settled s tx actor committed.1 committed.2 := settled_commit actor hfresh
  have hrequested : EndsIn requested
      (s.timeless.performEach tx.tenant actor 0 (tx.writes.map fun w => (w, none))) :=
    endsIn_issueEach moments tx.tenant actor tx.writes 0 s
  have hcommittedMoves : Moves s committed.2 := s.moves_commit moment tx actor
  have hrequestedMoves : Moves s requested.2 :=
    moves_issueEach moments tx.tenant actor tx.writes 0 s
  clear_value committed requested
  obtain ⟨answer, after⟩ := committed
  dsimp only at hsettled hcommittedMoves ⊢
  cases hsettled with
  | @stale read _ hmem hstale hafter =>
      refine ⟨fun _ => ⟨read, hmem, hstale, rfl⟩, fun hreads => ?_, fun e _ => ?_⟩
      · exact absurd hstale (hreads read hmem)
      · exact ⟨hafter.documents_eq, hafter.log_eq, hafter.replies⟩
  | @aborted position cause _ hreads hrun hafter =>
      rw [hrun] at hrequested
      have herror := hrequested.error
      refine ⟨?_, fun _ => ⟨?_, ?_, ?_⟩, fun e _ => ?_⟩
      · rintro ⟨read, hmem, hstale⟩
        exact absurd hstale (hreads read hmem)
      · simp [herror]
      · intro receipt results hreceipt
        cases hreceipt
      · intro position' cause' hfailed
        rw [herror] at hfailed
        cases hfailed
        rfl
      · exact ⟨hafter.documents_eq, hafter.log_eq, hafter.replies⟩
  | @carriedOut results _ hreads hrun =>
      rw [hrun] at hrequested
      obtain ⟨results', hok, huntimed, htimeless⟩ := hrequested.ok
      refine ⟨?_, fun _ => ⟨?_, ?_, ?_⟩, fun e herror => ?_⟩
      · rintro ⟨read, hmem, hstale⟩
        exact absurd hstale (hreads read hmem)
      · simp [hok]
      · intro receipt results'' hreceipt hresults
        cases hreceipt
        rw [hok] at hresults
        cases hresults
        exact ⟨rfl, huntimed.symm, congrArg Timeless.documents htimeless.symm,
          exists_added_of_timeless_eq hcommittedMoves hrequestedMoves htimeless.symm⟩
      · intro position cause hfailed
        rw [hok] at hfailed
        cases hfailed
      · cases herror

/-- The path `orders/O1`. -/
def orderPath : DocumentPath := ⟨"orders/O1", by decide +kernel⟩

/-- A store with one order, created under a key. -/
def stocked : Store :=
  ((Store.new 500 100 600000 "tenantId").create ⟨0, fun _ => ⟨7⟩⟩ "T1" "ann" "orders/O1"
    (.ofNat 1) (some "k")).2

/-- An order that was read is changed, closed, opened again and changed once more. -/
def reopening : Transaction where
  id := "k#0"
  tenant := "T1"
  writes :=
    [.update orderPath (.ofNat 2) (some 1) false,
     .delete orderPath (some 2),
     .create orderPath (.ofNat 3),
     .update orderPath (.ofNat 4) (some 1) true]
  reads := [(orderPath, 1)]
  limit := 500

/-- Reopening an order is agreed with the requests, and both succeed. -/
theorem reopening_agrees_with_requests :
    (∀ key ∈ reopening.keys, stocked.reply? reopening.tenant key 5 = none) ∧
    (∀ read ∈ reopening.reads, ¬ stocked.Stale reopening read) ∧
    ∃ receipt,
      (stocked.commit ⟨5, fun _ => ⟨3⟩⟩ reopening "bob").1 = .ok receipt := by
  have hfresh : ∀ key ∈ reopening.keys, stocked.reply? reopening.tenant key 5 = none := by
    decide +kernel
  have hreads : ∀ read ∈ reopening.reads, ¬ stocked.Stale reopening read := by
    decide +kernel
  have hagree := commit_agrees_with_requests stocked ⟨5, fun _ => ⟨3⟩⟩ reopening "bob"
    (fun _ => ⟨5, fun _ => ⟨3⟩⟩) hfresh
  exact ⟨hfresh, hreads, (hagree.2.1 hreads).1.2 ⟨_, rfl⟩⟩

end Store
end DocumentStore
