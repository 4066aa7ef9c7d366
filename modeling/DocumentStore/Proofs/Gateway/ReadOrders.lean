import DocumentStore.Proofs.Gateway.DeclaredReads
import Mathlib.Data.List.Forall2

/-!
# The order of the reads of a commit

There is no telling in which order a commit goes through its reads.  The order
makes little difference: with another one the database ends up the same, and the
answer is the same or names another of the reads that are no longer current.
So it is for single actions and, by induction, for whole histories.
-/

namespace DocumentStore

/-- The same moment, but for the order in which reads are gone through. -/
def Moment.reordered
    (moment : Moment)
    (order : ReadOrder) :
    Moment :=
  { moment with order }

/-- Reads are gone through from the last one that was noted to the first. -/
@[reducible]
def ReadOrder.reversed : ReadOrder where
  arrange := List.reverse
  perm := List.reverse_perm

namespace Transaction

theorem exists_of_mem_noteReads
    {tx : Transaction}
    {reads : List ReadVersion}
    {noted : DocumentPath × Nat}
    (h : noted ∈ (tx.noteReads reads).reads) :
    noted ∈ tx.reads ∨ ∃ read ∈ reads, noted = (read.path, read.version.toNat) := by
  induction reads generalizing tx with
  | nil =>
      exact .inl h
  | cons read rest ih =>
      rcases ih h with hnoted | ⟨other, hmem, heq⟩
      · rcases mem_reads_of_mem_noteRead hnoted with hold | hnew
        · exact .inl hold
        · exact .inr ⟨read, List.mem_cons_self, hnew⟩
      · exact .inr ⟨other, List.mem_cons_of_mem _ hmem, heq⟩

theorem exists_of_mem_declared
    {tenant id : String}
    {limit : Nat}
    {reads : List ReadVersion}
    {writes : List Write}
    {noted : DocumentPath × Nat}
    (h : noted ∈ (declared tenant id limit reads writes).reads) :
    ∃ read ∈ reads, noted = (read.path, read.version.toNat) :=
  (exists_of_mem_noteReads h).resolve_left List.not_mem_nil

end Transaction

namespace Store

/-- An answer to a commit names a read of the transaction that is stale. -/
def NamesStale
    (s : Store)
    (tx : Transaction)
    (answer : Except StoreError Receipt) :
    Prop :=
  ∃ read ∈ tx.reads, s.Stale tx read ∧
    answer = .error (.versionConflict read.1.text read.2 (s.currentVersion tx.tenant read.1))

/-- The writes of a commit do not depend on the order of its reads. -/
theorem performAll_reordered
    (tx : Transaction)
    (moment : Moment)
    (order : ReadOrder)
    (actor : String)
    (pending : List (Write × Option WriteResult))
    (position : Nat)
    (s : Store) :
    performAll tx (moment.reordered order) actor position pending s =
      performAll tx moment actor position pending s := by
  induction pending generalizing position s with
  | nil =>
      rfl
  | cons head rest ih =>
      obtain ⟨write, prior⟩ := head
      cases prior with
      | some prior =>
          rw [performAll_cons_some, performAll_cons_some, ih]
      | none =>
          rw [performAll_cons_none, performAll_cons_none]
          simp only [ih]
          rfl

/--
In two orders, either no read is found stale or one in each, which need not be
the same.
-/
theorem refusal?_reordered
    (s : Store)
    (tx : Transaction)
    (order order' : ReadOrder)
    (priors : List (Option WriteResult)) :
    s.refusal? tx order' priors = s.refusal? tx order priors ∨
      ∃ e e', s.refusal? tx order priors = some e ∧ s.refusal? tx order' priors = some e' ∧
        s.NamesStale tx (.error e) ∧ s.NamesStale tx (.error e') := by
  unfold refusal?
  by_cases hcurrent : ∀ read ∈ tx.reads, ¬ s.Stale tx read
  · rw [staleRead?_eq_none_iff.2 hcurrent, staleRead?_eq_none_iff.2 hcurrent]
    exact .inl rfl
  · have hfound (order : ReadOrder) :
        ∃ e, s.staleRead? tx order = some e ∧ s.NamesStale tx (.error e) := by
      obtain ⟨e, he⟩ := Option.ne_none_iff_exists'.1 (mt staleRead?_eq_none_iff.1 hcurrent)
      obtain ⟨read, hmem, hstale, rfl⟩ := exists_of_staleRead?_eq_some he
      exact ⟨_, he, read, hmem, hstale, rfl⟩
    obtain ⟨e, he, hnames⟩ := hfound order
    obtain ⟨e', he', hnames'⟩ := hfound order'
    rw [he, he']
    exact .inr ⟨e, e', rfl, rfl, hnames, hnames'⟩

theorem NamesStale.of_consulted
    {s s' : Store}
    {tx : Transaction}
    {answer : Except StoreError Receipt}
    (h : s'.NamesStale tx answer)
    (hconsulted : Consulted s s') :
    s.NamesStale tx answer := by
  obtain ⟨read, hmem, hstale, hanswer⟩ := h
  refine ⟨read, hmem, (hconsulted.stale_iff tx read).1 hstale, ?_⟩
  rw [hanswer, currentVersion, currentVersion, hconsulted.documents_eq]

/-- Another order of the reads leaves the same store, and may have another stale read named. -/
theorem commit_reordered
    (s : Store)
    (moment : Moment)
    (order : ReadOrder)
    (tx : Transaction)
    (actor : String) :
    (s.commit (moment.reordered order) tx actor).2 = (s.commit moment tx actor).2 ∧
      ((s.commit (moment.reordered order) tx actor).1 = (s.commit moment tx actor).1 ∨
        s.NamesStale tx (s.commit moment tx actor).1 ∧
          s.NamesStale tx (s.commit (moment.reordered order) tx actor).1) := by
  have hlookup := s.consulted_lookupReply tx.tenant tx.id moment.instant
  unfold commit
  simp only [performAll_reordered]
  dsimp only [Moment.reordered]
  generalize s.lookupReply tx.tenant tx.id moment.instant = looked at hlookup ⊢
  obtain ⟨reply, s'⟩ := looked
  cases reply with
  | some reply =>
      cases reply <;> exact ⟨rfl, .inl rfl⟩
  | none =>
      have hderived := hlookup.trans (consulted_derivedReplies tx moment.instant 0 tx.writes s')
      dsimp only
      generalize derivedReplies tx moment.instant 0 tx.writes s' = derived at hderived ⊢
      obtain ⟨priors, s''⟩ := derived
      cases priors with
      | error e =>
          exact ⟨rfl, .inl rfl⟩
      | ok priors =>
          dsimp only
          generalize (!tx.writes.isEmpty && priors.all Option.isSome) = replayed
          cases replayed with
          | true =>
              exact ⟨rfl, .inl rfl⟩
          | false =>
              rcases s''.refusal?_reordered tx moment.order order priors with
                hsame | ⟨e, e', he, he', hnames, hnames'⟩
              · rw [hsame]
                exact ⟨rfl, .inl rfl⟩
              · rw [he, he']
                exact ⟨rfl, .inr ⟨hnames.of_consulted hderived, hnames'.of_consulted hderived⟩⟩

end Store

namespace Database

/-! ### Requests -/

/-- The conflict that a read has when the document at a path has some version. -/
def conflictAt
    (current : DocumentPath → Nat)
    (read : ReadVersion) :
    RequestError :=
  .store (.versionConflict read.path.text read.version.toNat (current read.path))

/--
A request is answered alike: in the same way, or, if it is a commit, with the
conflicts of two of its reads that are both stale.
-/
inductive AnsweredAlike :
    Operation × Except RequestError Outcome → Operation × Except RequestError Outcome → Prop
  | same
      (request : Operation × Except RequestError Outcome) :
      AnsweredAlike request request
  | conflicts
      {transaction : Option String}
      {reads : List ReadVersion}
      {writes : List Write}
      {read other : ReadVersion}
      (current : DocumentPath → Nat)
      (hread : read ∈ reads)
      (hstale : current read.path ≠ read.version.toNat)
      (hother : other ∈ reads)
      (hstale_other : current other.path ≠ other.version.toNat) :
      AnsweredAlike
        (.commit transaction reads writes, .error (conflictAt current read))
        (.commit transaction reads writes, .error (conflictAt current other))

/-- Commits of declared reads to the store that end alike answer their requests alike. -/
theorem answeredAlike_onStore
    {s : Store}
    {tenant id : String}
    {limit : Nat}
    {transaction : Option String}
    {reads : List ReadVersion}
    {writes : List Write}
    {a b : Except StoreError Receipt × Store}
    (db : Database)
    (hstore : b.2 = a.2)
    (hanswer : b.1 = a.1 ∨
      s.NamesStale (.declared tenant id limit reads writes) a.1 ∧
        s.NamesStale (.declared tenant id limit reads writes) b.1) :
    (db.onStore .committed b).2 = (db.onStore .committed a).2 ∧
      AnsweredAlike (.commit transaction reads writes, (db.onStore .committed a).1)
        (.commit transaction reads writes, (db.onStore .committed b).1) := by
  obtain ⟨answer, after⟩ := a
  obtain ⟨answer', after'⟩ := b
  dsimp only at hstore hanswer
  subst hstore
  rcases hanswer with rfl | ⟨⟨noted, hnoted, hstale, rfl⟩, noted', hnoted', hstale', rfl⟩
  · exact ⟨rfl, .same _⟩
  · obtain ⟨read, hread, rfl⟩ := Transaction.exists_of_mem_declared hnoted
    obtain ⟨other, hother, rfl⟩ := Transaction.exists_of_mem_declared hnoted'
    exact ⟨rfl, .conflicts (s.currentVersion _) hread hstale hother hstale'⟩

/-- Another order of the reads leaves the same database, and has the request answered alike. -/
theorem execute_reordered
    (db : Database)
    (moment : Moment)
    (order : ReadOrder)
    (freshId : String)
    (requester : Requester)
    (operation : Operation) :
    (db.execute (moment.reordered order) freshId requester operation).2 =
        (db.execute moment freshId requester operation).2 ∧
      AnsweredAlike (operation, (db.execute moment freshId requester operation).1)
        (operation, (db.execute (moment.reordered order) freshId requester operation).1) := by
  cases operation with
  | commit transaction reads writes =>
      rw [execute, execute, commit, commit]
      dsimp only [Moment.reordered]
      generalize hdeclared : declareReads moment.instant requester reads _ db = declared
      obtain ⟨tx, db'⟩ := declared
      cases tx with
      | error refusal =>
          exact ⟨rfl, .same _⟩
      | ok tx =>
          dsimp only
          generalize hgathered : gatherWrites moment.instant requester writes tx db' = gathered
          obtain ⟨tx', db''⟩ := gathered
          cases tx' with
          | error refusal =>
              exact ⟨rfl, .same _⟩
          | ok tx' =>
              dsimp only
              obtain ⟨-, rfl⟩ := granted_of_declareReads hdeclared
              obtain ⟨-, hgathered⟩ := granted_of_gatherWrites hgathered
              rw [Transaction.writes_noteReads] at hgathered
              have htx : tx' = Transaction.declared requester.tenant (transaction.getD freshId)
                  db.store.transactionLimit reads writes := hgathered
              subst htx
              obtain ⟨hstore, hanswer⟩ := db''.store.commit_reordered moment order
                (.declared requester.tenant (transaction.getD freshId) db.store.transactionLimit
                  reads writes) requester.actor
              exact answeredAlike_onStore db'' hstore hanswer
  | _ =>
      exact ⟨rfl, .same _⟩

/-! ### Histories -/

/-- The same action, but for the order in which the reads of a commit are gone through. -/
def Action.reordered
    (action : Action)
    (order : ReadOrder) :
    Action :=
  match action with
  | .execute moment freshId requester operation =>
      .execute (moment.reordered order) freshId requester operation
  | .create moment tenant actor raw data key =>
      .create (moment.reordered order) tenant actor raw data key
  | .update moment tenant actor raw data ifVersion merge key =>
      .update (moment.reordered order) tenant actor raw data ifVersion merge key
  | .delete moment tenant actor raw ifVersion key =>
      .delete (moment.reordered order) tenant actor raw ifVersion key
  | .commit moment tx actor => .commit (moment.reordered order) tx actor
  | action => action

/-- The same history, but that in each action reads may be gone through in another order. -/
def Reordered (history history' : List Action) : Prop :=
  List.Forall₂ (fun action action' => ∃ order, action' = action.reordered order) history history'

theorem reordered_map
    (history : List Action)
    (order : ReadOrder) :
    Reordered history (history.map fun action => action.reordered order) := by
  unfold Reordered
  rw [List.forall₂_map_right_iff]
  exact List.forall₂_same.2 fun _ _ => ⟨order, rfl⟩

/-- The database after an action does not depend on the order of reads. -/
theorem after_reordered
    (db : Database)
    (action : Action)
    (order : ReadOrder) :
    db.after (action.reordered order) = db.after action := by
  cases action with
  | execute moment freshId requester operation =>
      exact (db.execute_reordered moment order freshId requester operation).1
  | commit moment tx actor =>
      rw [Action.reordered, after, after, (db.store.commit_reordered moment order tx actor).1]
  | _ =>
      rfl

/-- The request of a tenant that an action is, if it is one, with its answer. -/
def answered?
    (tenant : String)
    (db : Database) :
    Action → Option (Operation × Except RequestError Outcome)
  | .execute moment freshId requester operation =>
      if requester.tenant = tenant then
        some (operation, (db.execute moment freshId requester operation).1)
      else
        none
  | _ => none

/-- The requests of a tenant in a history with their answers. -/
def answers
    (tenant : String) :
    Database → List Action → List (Operation × Except RequestError Outcome)
  | _, [] => []
  | db, action :: rest => (db.answered? tenant action).toList ++ answers tenant (db.after action) rest

/-- In another order of the reads, an action of a tenant is answered alike. -/
theorem answered?_reordered
    (tenant : String)
    (db : Database)
    (action : Action)
    (order : ReadOrder) :
    List.Forall₂ AnsweredAlike (db.answered? tenant action).toList
      (db.answered? tenant (action.reordered order)).toList := by
  cases action with
  | execute moment freshId requester operation =>
      rw [Action.reordered, answered?, answered?]
      split
      · exact .cons (db.execute_reordered moment order freshId requester operation).2 .nil
      · exact .nil
  | _ =>
      exact .nil

theorem Reordered.answered_alike
    {history history' : List Action}
    (h : Reordered history history')
    (tenant : String)
    (db : Database) :
    List.Forall₂ AnsweredAlike (db.answers tenant history) (db.answers tenant history') := by
  unfold Reordered at h
  induction h generalizing db with
  | nil =>
      exact .nil
  | @cons action action' rest rest' hsame hrest ih =>
      obtain ⟨order, rfl⟩ := hsame
      rw [answers, answers, db.after_reordered action order]
      exact List.rel_append (db.answered?_reordered tenant action order) (ih (db.after action))

end Database
end DocumentStore
