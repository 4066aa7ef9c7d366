import DocumentStore.Proofs.Gateway.Refusals
import DocumentStore.Proofs.Store.Guards

/-!
# Which declared reads are enforced

A commit declares the versions that the caller has read.  They are noted one
after the other, and the first read of a path counts.  So a commit that is
carried out has found each document at the version of the first read of its
path, and what a later read of that path declares makes no difference.
-/

namespace DocumentStore

namespace Transaction

theorem mem_reads_noteRead
    {tx : Transaction}
    {noted : DocumentPath × Nat}
    (h : noted ∈ tx.reads)
    (path : DocumentPath)
    (version : Nat) :
    noted ∈ (tx.noteRead path version).reads := by
  unfold noteRead
  split
  · exact h
  · exact List.mem_append_left _ h

/-- The read of a path that was not read before is noted. -/
theorem mem_reads_noteRead_self
    {tx : Transaction}
    {path : DocumentPath}
    (hnew : ∀ noted ∈ tx.reads, noted.1 ≠ path)
    (version : Nat) :
    (path, version) ∈ (tx.noteRead path version).reads := by
  have hunread : ¬ (tx.reads.any fun noted => noted.1 = path) := by
    rw [List.any_eq_true]
    rintro ⟨noted, hmem, hpath⟩
    exact hnew noted hmem (of_decide_eq_true hpath)
  unfold noteRead
  rw [if_neg hunread]
  exact List.mem_append_right _ (List.mem_singleton_self _)

/-- Noting a read adds nothing but the read. -/
theorem mem_reads_of_mem_noteRead
    {tx : Transaction}
    {path : DocumentPath}
    {version : Nat}
    {noted : DocumentPath × Nat}
    (h : noted ∈ (tx.noteRead path version).reads) :
    noted ∈ tx.reads ∨ noted = (path, version) := by
  unfold noteRead at h
  split at h
  · exact .inl h
  · rcases List.mem_append.1 h with hold | hnew
    · exact .inl hold
    · exact .inr (List.mem_singleton.1 hnew)

theorem exists_mem_reads_noteRead
    (tx : Transaction)
    (path : DocumentPath)
    (version : Nat) :
    ∃ noted ∈ (tx.noteRead path version).reads, noted.1 = path := by
  by_cases hread : ∃ noted ∈ tx.reads, noted.1 = path
  · obtain ⟨noted, hmem, hpath⟩ := hread
    exact ⟨noted, mem_reads_noteRead hmem path version, hpath⟩
  · refine ⟨_, mem_reads_noteRead_self ?_ version, rfl⟩
    exact fun noted hmem hpath => hread ⟨noted, hmem, hpath⟩

theorem noteRead_of_mem
    {tx : Transaction}
    {path : DocumentPath}
    (h : ∃ noted ∈ tx.reads, noted.1 = path)
    (version : Nat) :
    tx.noteRead path version = tx := by
  obtain ⟨noted, hmem, hpath⟩ := h
  unfold noteRead
  rw [if_pos (List.any_eq_true.2 ⟨noted, hmem, decide_eq_true hpath⟩)]

theorem mem_reads_noteReads
    {tx : Transaction}
    {noted : DocumentPath × Nat}
    (h : noted ∈ tx.reads)
    (reads : List ReadVersion) :
    noted ∈ (tx.noteReads reads).reads := by
  induction reads generalizing tx with
  | nil =>
      exact h
  | cons read rest ih =>
      exact ih (mem_reads_noteRead h read.path read.version.toNat)

/-- Of the reads of a path, the first is noted. -/
theorem mem_reads_noteReads_first
    {tx : Transaction}
    {earlier later : List ReadVersion}
    {read : ReadVersion}
    (hnew : ∀ noted ∈ tx.reads, noted.1 ≠ read.path)
    (hfirst : ∀ other ∈ earlier, other.path ≠ read.path) :
    (read.path, read.version.toNat) ∈ (tx.noteReads (earlier ++ read :: later)).reads := by
  induction earlier generalizing tx with
  | nil =>
      exact mem_reads_noteReads (mem_reads_noteRead_self hnew read.version.toNat) later
  | cons other rest ih =>
      refine ih ?_ fun r hr => hfirst r (List.mem_cons_of_mem _ hr)
      intro noted hnoted
      rcases mem_reads_of_mem_noteRead hnoted with hold | rfl
      · exact hnew noted hold
      · exact hfirst other List.mem_cons_self

/-- A commit has noted the first read of each path that it declares. -/
theorem mem_reads_declared
    {tenant id : String}
    {limit : Nat}
    {earlier later : List ReadVersion}
    {read : ReadVersion}
    {writes : List Write}
    (hfirst : ∀ other ∈ earlier, other.path ≠ read.path) :
    (read.path, read.version.toNat) ∈
      (declared tenant id limit (earlier ++ read :: later) writes).reads :=
  mem_reads_noteReads_first (fun _ h => nomatch h) hfirst

end Transaction

/-- Each read of a list has the path of one that is the first of its path. -/
theorem ReadVersion.exists_first
    {reads : List ReadVersion}
    {read : ReadVersion}
    (h : read ∈ reads) :
    ∃ earlier first later, reads = earlier ++ first :: later ∧ first.path = read.path ∧
      ∀ other ∈ earlier, other.path ≠ read.path := by
  have hsome : (reads.find? fun other => other.path = read.path).isSome :=
    List.find?_isSome.2 ⟨read, h, by simp⟩
  obtain ⟨first, hfind⟩ := Option.isSome_iff_exists.1 hsome
  obtain ⟨hpath, earlier, later, hreads, hearlier⟩ := List.find?_eq_some_iff_append.1 hfind
  refine ⟨earlier, first, later, hreads, of_decide_eq_true hpath, fun other hother => ?_⟩
  simpa using hearlier other hother

/--
A commit is carried out, not answered from the recorded replies: there is none
for its transaction and, if it writes at all, not one for each of its writes.
-/
def Store.CarriesOut
    (s : Store)
    (tx : Transaction)
    (instant : Nat) :
    Prop :=
  s.reply? tx.tenant tx.id instant = none ∧
    (tx.writes = [] ∨
      ∃ i < tx.writes.length, s.reply? tx.tenant (tx.derivedKey i) instant = none)

namespace Database

/-- A request to commit that succeeds has committed its reads and writes to the store. -/
theorem exists_receipt_of_commit
    {db : Database}
    {moment : Moment}
    {freshId : String}
    {requester : Requester}
    {transaction : Option String}
    {reads : List ReadVersion}
    {writes : List Write}
    {outcome : Outcome}
    (hok : (db.execute moment freshId requester (.commit transaction reads writes)).1 =
      .ok outcome) :
    ∃ receipt,
      (db.store.commit moment
        (Transaction.declared requester.tenant (transaction.getD freshId)
          db.store.transactionLimit reads writes) requester.actor).1 = .ok receipt := by
  have hanswered := db.answered_execute moment freshId requester (.commit transaction reads writes)
  generalize db.execute moment freshId requester (.commit transaction reads writes) = response
    at hanswered hok
  cases hanswered with
  | turnedDown hasked =>
      cases hok
  | carriedOut hgranted =>
      rw [carryOut, hgranted.asked.store_eq] at hok
      generalize db.store.commit moment _ requester.actor = served at hok ⊢
      obtain ⟨result, after⟩ := served
      cases result with
      | error e =>
          cases hok
      | ok receipt =>
          exact ⟨receipt, rfl⟩

/-- Of reads that are judged, the version of one whose path was read before does not matter. -/
theorem declareReads_of_later
    {instant : Nat}
    {requester : Requester}
    {earlier later : List ReadVersion}
    {path : DocumentPath}
    {tx : Transaction}
    (db : Database)
    (h : (∃ noted ∈ tx.reads, noted.1 = path) ∨ ∃ other ∈ earlier, other.path = path)
    (version version' : UInt64) :
    declareReads instant requester (earlier ++ ⟨path, version⟩ :: later) tx db =
      declareReads instant requester (earlier ++ ⟨path, version'⟩ :: later) tx db := by
  induction earlier generalizing tx db with
  | nil =>
      have hread : ∃ noted ∈ tx.reads, noted.1 = path :=
        h.resolve_right fun ⟨_, hmem, _⟩ => nomatch hmem
      simp only [List.nil_append, declareReads, Transaction.noteRead_of_mem hread]
  | cons other rest ih =>
      simp only [List.cons_append, declareReads]
      split
      · rfl
      · refine ih _ ?_
        rcases h with ⟨noted, hmem, hpath⟩ | ⟨r, hmem, hpath⟩
        · exact .inl ⟨noted, Transaction.mem_reads_noteRead hmem _ _, hpath⟩
        · rcases List.mem_cons.1 hmem with rfl | hrest
          · obtain ⟨noted, hnoted, hsame⟩ :=
              tx.exists_mem_reads_noteRead r.path r.version.toNat
            exact .inl ⟨noted, hnoted, hsame.trans hpath⟩
          · exact .inr ⟨r, hrest, hpath⟩

/--
The first read of a path counts.  When a commit is carried out and succeeds, in
whatever state, the document at the path of each declared read that is the first
of its path had the declared version right before, 0 if it was not there.  So had
the document of every read whose path is declared with one version only.  What a
later read of a path declares makes no difference to the commit.
-/
theorem commit_enforces_first_reads
    (db : Database)
    (moment : Moment)
    (freshId : String)
    (requester : Requester)
    (transaction : Option String)
    (reads : List ReadVersion)
    (writes : List Write)
    (outcome : Outcome)
    (hcarried : db.store.CarriesOut
      (Transaction.declared requester.tenant (transaction.getD freshId)
        db.store.transactionLimit reads writes) moment.instant)
    (hok : (db.execute moment freshId requester (.commit transaction reads writes)).1 =
      .ok outcome) :
    (∀ earlier read later, reads = earlier ++ read :: later →
      (∀ other ∈ earlier, other.path ≠ read.path) →
      read.version.toNat = db.store.currentVersion requester.tenant read.path) ∧
    (∀ read ∈ reads,
      (∀ other ∈ reads, other.path = read.path → other.version = read.version) →
      read.version.toNat = db.store.currentVersion requester.tenant read.path) ∧
    ∀ earlier read later version, reads = earlier ++ read :: later →
      (∃ other ∈ earlier, other.path = read.path) →
      db.execute moment freshId requester
          (.commit transaction (earlier ++ ⟨read.path, version⟩ :: later) writes) =
        db.execute moment freshId requester (.commit transaction reads writes) := by
  obtain ⟨hfresh, hnew⟩ := hcarried
  obtain ⟨receipt, hreceipt⟩ := exists_receipt_of_commit hok
  have hcurrent := Store.not_stale_of_commit hfresh hnew hreceipt
  have hfirsts : ∀ earlier read later, reads = earlier ++ read :: later →
      (∀ other ∈ earlier, other.path ≠ read.path) →
      read.version.toNat = db.store.currentVersion requester.tenant read.path := by
    rintro earlier read later rfl hfirst
    have hread := hcurrent _ (Transaction.mem_reads_declared hfirst)
    unfold Store.Stale at hread
    rw [Decidable.not_not, Transaction.tenant_declared] at hread
    exact hread.symm
  refine ⟨hfirsts, ?_, ?_⟩
  · intro read hmem hagree
    obtain ⟨earlier, first, later, hreads, hpath, hearlier⟩ := ReadVersion.exists_first hmem
    have hfirst := hfirsts earlier first later hreads (by rwa [hpath])
    rw [hpath] at hfirst
    rw [← hagree first (by simp [hreads]) hpath]
    exact hfirst
  · rintro earlier ⟨path, declared⟩ later version rfl hlater
    rw [execute, execute, commit, commit]
    rw [declareReads_of_later db (.inr hlater) version declared]

/-- The first order is changed by one who has read it twice and has missed the second order. -/
def rereading : Operation :=
  .commit (some "t2") [⟨firstOrder, 1⟩, ⟨secondOrder, 0⟩, ⟨firstOrder, 1⟩]
    [.update firstOrder (.ofNat 2) none false]

/-- The change goes through, and both orders were as they were read. -/
theorem rereading_finds_orders_as_read :
    ordered.store.CarriesOut
      (Transaction.declared "acme" "t2" ordered.store.transactionLimit
        [⟨firstOrder, 1⟩, ⟨secondOrder, 0⟩, ⟨firstOrder, 1⟩]
        [.update firstOrder (.ofNat 2) none false]) 5 ∧
    (∃ outcome,
      (ordered.execute ⟨5, fun _ => ⟨9⟩⟩ "u" (.ofService "acme") rereading).1 = .ok outcome) ∧
    ordered.store.currentVersion "acme" firstOrder = 1 ∧
    ordered.store.currentVersion "acme" secondOrder = 0 := by
  have hcarried : ordered.store.CarriesOut
      (Transaction.declared "acme" "t2" ordered.store.transactionLimit
        [⟨firstOrder, 1⟩, ⟨secondOrder, 0⟩, ⟨firstOrder, 1⟩]
        [.update firstOrder (.ofNat 2) none false]) 5 :=
    ⟨by decide +kernel, .inr ⟨0, by decide, by decide +kernel⟩⟩
  obtain ⟨outcome, hok⟩ : ∃ outcome,
      (ordered.execute ⟨5, fun _ => ⟨9⟩⟩ "u" (.ofService "acme") rereading).1 = .ok outcome :=
    ⟨_, rfl⟩
  obtain ⟨hfirsts, hall, -⟩ := commit_enforces_first_reads ordered ⟨5, fun _ => ⟨9⟩⟩ "u"
    (.ofService "acme") (some "t2") _ _ outcome hcarried hok
  have hagree : ∀ other ∈ [(⟨firstOrder, 1⟩ : ReadVersion), ⟨secondOrder, 0⟩, ⟨firstOrder, 1⟩],
      other.path = firstOrder → other.version = 1 := by
    decide +kernel
  have hfirst := hall ⟨firstOrder, 1⟩ List.mem_cons_self hagree
  have hsecond := hfirsts [⟨firstOrder, 1⟩] ⟨secondOrder, 0⟩ [⟨firstOrder, 1⟩] rfl
    (by decide +kernel)
  exact ⟨hcarried, ⟨outcome, hok⟩, hfirst.symm, hsecond.symm⟩

/-- A caller declares two versions of one order, which it cannot both have. -/
def contradicting : Operation :=
  .commit (some "t2") [⟨firstOrder, 1⟩, ⟨firstOrder, 7⟩]
    [.update firstOrder (.ofNat 2) none false]

/-- The commit is carried out and succeeds, although the order never had the second version. -/
theorem second_read_goes_unchecked :
    Reachable ordered ∧
    ordered.store.CarriesOut
      (Transaction.declared "acme" "t2" ordered.store.transactionLimit
        [⟨firstOrder, 1⟩, ⟨firstOrder, 7⟩] [.update firstOrder (.ofNat 2) none false]) 5 ∧
    (∃ outcome,
      (ordered.execute ⟨5, fun _ => ⟨9⟩⟩ "u" (.ofService "acme") contradicting).1 =
        .ok outcome) ∧
    ordered.store.currentVersion "acme" firstOrder = 1 ∧
    ¬ ∀ read ∈ [(⟨firstOrder, 1⟩ : ReadVersion), ⟨firstOrder, 7⟩],
      read.version.toNat = ordered.store.currentVersion "acme" read.path := by
  have hcarried : ordered.store.CarriesOut
      (Transaction.declared "acme" "t2" ordered.store.transactionLimit
        [⟨firstOrder, 1⟩, ⟨firstOrder, 7⟩] [.update firstOrder (.ofNat 2) none false]) 5 :=
    ⟨by decide +kernel, .inr ⟨0, by decide, by decide +kernel⟩⟩
  exact ⟨reachable_fresh.step (.execute _ _ _ _), hcarried, ⟨_, rfl⟩, by decide +kernel,
    by decide +kernel⟩

end Database
end DocumentStore
