import DocumentStore.Proofs.Store.Replay

/-!
# Reading the tail of the change log

Every write that takes a time takes a later one than all before it, also when
the wall clock stands still or goes back, when an earlier write has failed, and
among the writes of one commit.  So the times of the entries strictly increase,
and the search by halving finds where the entries newer than an instant begin.
A client that asks for what follows an entry, by the time of the entry or by its
number, gets exactly the later entries.
-/

namespace DocumentStore

universe u

/-- Leaving out a beginning is filtering if a condition fails on it and holds from there on. -/
theorem drop_eq_filter
    {α : Type u}
    {p : α → Bool}
    {items : List α}
    {n : Nat}
    (hbefore : ∀ i (hi : i < items.length), i < n → p items[i] = false)
    (hafter : ∀ i (hi : i < items.length), n ≤ i → p items[i] = true) :
    items.drop n = items.filter p := by
  have htake : (items.take n).filter p = [] := by
    refine List.filter_eq_nil_iff.2 fun a ha => ?_
    obtain ⟨i, hi, rfl⟩ := List.mem_iff_getElem.1 ha
    rw [List.length_take] at hi
    rw [List.getElem_take, hbefore i (by omega) (by omega)]
    decide
  have hdrop : (items.drop n).filter p = items.drop n := by
    refine List.filter_eq_self.2 fun a ha => ?_
    obtain ⟨i, hi, rfl⟩ := List.mem_iff_getElem.1 ha
    rw [List.length_drop] at hi
    rw [List.getElem_drop]
    exact hafter (n + i) (by omega) (by omega)
  calc
    items.drop n = (items.take n).filter p ++ (items.drop n).filter p := by
      rw [htake, hdrop, List.nil_append]
    _ = items.filter p := by
      rw [← List.filter_append, List.take_append_drop]

namespace ChangeLog

/--
Halving keeps it that the condition holds before `low` and fails from `high` on;
at the end the two meet.
-/
theorem boundary_spec
    {α : Type}
    {p : α → Bool}
    {items : List α}
    (hmono : items.Pairwise fun a b => p b = true → p a = true)
    {low high : Nat}
    {hbound : high ≤ items.length}
    (hlow : ∀ i (hi : i < items.length), i < low → p items[i] = true)
    (hhigh : ∀ i (hi : i < items.length), high ≤ i → p items[i] = false) :
    (∀ i (hi : i < items.length), i < boundary p items low high hbound → p items[i] = true) ∧
      ∀ i (hi : i < items.length), boundary p items low high hbound ≤ i →
        p items[i] = false := by
  have hback : ∀ i j (hi : i < items.length) (hj : j < items.length), i ≤ j →
      p items[j] = true → p items[i] = true := by
    intro i j hi hj hij hp
    rcases Nat.lt_or_eq_of_le hij with hlt | rfl
    · exact List.pairwise_iff_getElem.1 hmono i j hi hj hlt hp
    · exact hp
  fun_induction boundary p items low high hbound with
  | case1 low high hbound hlt middle hp ih =>
      refine ih ?_ hhigh
      intro i hi hle
      exact hback i middle hi (by omega) (by omega) hp
  | case2 low high hbound hlt middle hp ih =>
      refine ih hlow ?_
      intro i hi hle
      rw [Bool.eq_false_iff]
      intro hpi
      exact hp (hback middle i (by omega) hi hle hpi)
  | case3 low high hbound hmeet =>
      refine ⟨hlow, fun i hi hle => ?_⟩
      exact hhigh i hi (by omega)

/-- The times of the entries strictly increase. -/
def Ascends (log : ChangeLog) : Prop :=
  log.entries.Pairwise fun e e' => e.timestamp.micros < e'.timestamp.micros

/-- The search by halving finds exactly the entries newer than an instant. -/
theorem since_eq_filter
    {log : ChangeLog}
    (h : log.Ascends)
    (instant : Timestamp)
    (tenant : Option String) :
    log.since instant tenant =
      log.entries.filter fun e =>
        tenant.all (· = e.tenant) && decide (instant.micros < e.timestamp.micros) := by
  have hmono : log.entries.Pairwise fun e e' =>
      decide (e'.timestamp.micros ≤ instant.micros) = true →
        decide (e.timestamp.micros ≤ instant.micros) = true := by
    refine h.imp fun hlt hold => ?_
    rw [decide_eq_true_eq] at hold ⊢
    omega
  obtain ⟨hold, hnew⟩ :=
    @boundary_spec _ _ _ hmono 0 log.entries.length (Nat.le_refl _) (by omega) (by omega)
  have hdrop : log.entries.drop (boundary _ log.entries 0 log.entries.length (Nat.le_refl _)) =
      log.entries.filter fun e => decide (instant.micros < e.timestamp.micros) :=
    drop_eq_filter
      (fun i hi hlt => by simpa using hold i hi hlt)
      (fun i hi hle => by simpa using hnew i hi hle)
  unfold since
  dsimp only
  rw [hdrop, List.filter_filter]

/-- The `n`-th entry has the number `n`. -/
def Numbered (log : ChangeLog) : Prop :=
  ∀ i (hi : i < log.entries.length), log.entries[i].sequence = i + 1

/-- Leaving out the first entries leaves exactly those with greater numbers. -/
theorem after_eq_filter
    {log : ChangeLog}
    (h : log.Numbered)
    (n : Nat) :
    log.after n = log.entries.filter fun e => decide (n < e.sequence) := by
  refine drop_eq_filter ?_ ?_
  · intro i hi hlt
    rw [h i hi, decide_eq_false_iff_not]
    omega
  · intro i hi hle
    rw [h i hi, decide_eq_true_eq]
    omega

/-- What is newer than an entry is what follows it. -/
theorem since_timestamp
    {log : ChangeLog}
    (h : log.Ascends)
    {earlier later : List LogEntry}
    {e : LogEntry}
    (hentries : log.entries = earlier ++ e :: later) :
    log.since e.timestamp none = later := by
  unfold Ascends at h
  rw [since_eq_filter h, hentries]
  rw [hentries, List.pairwise_append, List.pairwise_cons] at h
  obtain ⟨-, ⟨hlater, -⟩, hearlier⟩ := h
  have hbefore : earlier.filter
      (fun e' => decide (e.timestamp.micros < e'.timestamp.micros)) = [] := by
    refine List.filter_eq_nil_iff.2 fun e' he' => ?_
    have hlt := hearlier e' he' e List.mem_cons_self
    simp only [decide_eq_true_eq]
    omega
  have hafter : later.filter
      (fun e' => decide (e.timestamp.micros < e'.timestamp.micros)) = later :=
    List.filter_eq_self.2 fun e' he' => decide_eq_true (hlater e' he')
  simp [hbefore, hafter]

/-- Where times increase, an entry is found by its time. -/
theorem sequenceOf?_timestamp
    {log : ChangeLog}
    (h : log.Ascends)
    {i : Nat}
    (hi : i < log.entries.length) :
    log.sequenceOf? log.entries[i].timestamp = some log.entries[i].sequence := by
  have hfirst : log.entries.find? (fun e => e.timestamp = log.entries[i].timestamp) =
      some log.entries[i] := by
    refine List.find?_eq_some_iff_getElem.2 ⟨decide_eq_true rfl, i, hi, rfl, fun j hj => ?_⟩
    have hlt := List.pairwise_iff_getElem.1 h j i (by omega) hi hj
    simp only [Bool.not_eq_true', decide_eq_false_iff_not]
    exact fun heq => absurd (congrArg Timestamp.micros heq) (Int.ne_of_lt hlt)
  rw [sequenceOf?, hfirst, Option.map_some]

/-- Where entries are numbered, the `n`-th one is found by its number. -/
theorem instantOf_eq
    {log : ChangeLog}
    (h : log.Numbered)
    {i : Nat}
    (hi : i < log.entries.length) :
    log.instantOf (i + 1) = log.entries[i].timestamp := by
  have hfirst : log.entries.find? (fun e => e.sequence = i + 1) = some log.entries[i] := by
    refine List.find?_eq_some_iff_getElem.2 ⟨decide_eq_true (h i hi), i, hi, rfl, fun j hj => ?_⟩
    rw [h j (by omega)]
    simp only [Bool.not_eq_true', decide_eq_false_iff_not]
    omega
  rw [instantOf, hfirst]

end ChangeLog

namespace Store

/-- A time that is taken is later than the last one, whatever the wall clock shows. -/
theorem lt_timeAfter
    {clock : Option Timestamp}
    {last : Timestamp}
    (h : clock = some last)
    (reading : Timestamp) :
    last.micros < (timeAfter clock reading).micros := by
  subst h
  unfold timeAfter
  dsimp only
  split
  · unfold Timestamp.next
    dsimp only
    omega
  · omega

/-- The times in the log strictly increase, and none is later than the clock of the log. -/
structure Timed (s : Store) : Prop where
  ascends : s.log.Ascends
  reached : ∀ e ∈ s.log.entries, ∃ last, s.clock = some last ∧
    e.timestamp.micros ≤ last.micros

theorem Timed.new
    (limit capacity lifetime : Nat)
    (tenantField : String) :
    (Store.new limit capacity lifetime tenantField).Timed :=
  ⟨.nil, fun _ h => nomatch h⟩

theorem Timed.lt_timeAfter
    {s : Store}
    (h : s.Timed)
    (reading : Timestamp) :
    ∀ e ∈ s.log.entries, e.timestamp.micros < (timeAfter s.clock reading).micros := by
  intro e he
  obtain ⟨last, hclock, hle⟩ := h.reached e he
  have hlt := Store.lt_timeAfter hclock reading
  omega

/-- A move of the store keeps the times in order, also one that takes a time in vain. -/
theorem Timed.move
    {s s' : Store}
    (hmove : Move s s')
    (h : s.Timed) :
    s'.Timed := by
  cases hmove with
  | replies =>
      exact ⟨h.ascends, h.reached⟩
  | tick reading =>
      refine ⟨h.ascends, fun e he => ⟨_, rfl, ?_⟩⟩
      exact Int.le_of_lt (h.lt_timeAfter reading e he)
  | change reading happly origin =>
      refine ⟨?_, fun e he => ⟨_, rfl, ?_⟩⟩
      · refine List.pairwise_append.2 ⟨h.ascends, List.pairwise_singleton _ _, ?_⟩
        intro e he new hnew
        rw [List.mem_singleton] at hnew
        subst hnew
        exact h.lt_timeAfter reading e he
      · rcases List.mem_append.1 he with hold | hnew
        · exact Int.le_of_lt (h.lt_timeAfter reading e hold)
        · rw [List.mem_singleton] at hnew
          subst hnew
          exact Int.le_refl _

theorem Timed.with_catalog
    {s : Store}
    (h : s.Timed)
    (catalog : Catalog) :
    ({ s with catalog } : Store).Timed :=
  ⟨h.ascends, h.reached⟩

/-- After any run from a new store the times in the log strictly increase. -/
theorem Run.timed
    {limit capacity lifetime : Nat}
    {tenantField : String}
    {calls : List (Moment × Call)}
    {s : Store}
    (h : Run (Store.new limit capacity lifetime tenantField) calls s) :
    s.Timed := by
  induction h with
  | start =>
      exact Timed.new _ _ _ _
  | @serve calls s _ moment call ih =>
      exact (s.moves_serve moment call).preserves Timed.move ih
  | @createIndex calls s _ definition ih =>
      obtain ⟨catalog, hcatalog⟩ := s.createIndex_with_catalog definition
      rw [hcatalog]
      exact ih.with_catalog catalog
  | @dropIndex calls s _ name ih =>
      obtain ⟨catalog, hcatalog⟩ := s.dropIndex_with_catalog name
      rw [hcatalog]
      exact ih.with_catalog catalog

theorem Run.numbered
    {limit capacity lifetime : Nat}
    {tenantField : String}
    {calls : List (Moment × Call)}
    {s : Store}
    (h : Run (Store.new limit capacity lifetime tenantField) calls s) :
    s.log.Numbered := by
  intro i hi
  have hsplit : s.log.entries =
      s.log.entries.take i ++ s.log.entries[i] :: s.log.entries.drop (i + 1) := by
    rw [List.getElem_cons_drop, List.take_append_drop]
  rw [h.log_accounts_for_documents.numbered _ _ _ hsplit, List.length_take]
  omega

/-- After any run, the numbers of entries and their times stand for each other. -/
theorem Run.sequenceOf?_instantOf
    {limit capacity lifetime : Nat}
    {tenantField : String}
    {calls : List (Moment × Call)}
    {s : Store}
    (h : Run (Store.new limit capacity lifetime tenantField) calls s)
    {n : Nat}
    (hpos : 0 < n)
    (hle : n ≤ s.log.lastSequence) :
    s.log.sequenceOf? (s.log.instantOf n) = some n := by
  obtain ⟨i, rfl⟩ := Nat.exists_eq_add_of_le' hpos
  have hi : i < s.log.entries.length := hle
  rw [ChangeLog.instantOf_eq h.numbered hi, ChangeLog.sequenceOf?_timestamp h.timed.ascends hi,
    h.numbered i hi]

/--
However the wall clock goes, after any run from a new store the times in the log
strictly increase.  So reading the log from an instant on yields exactly the
entries newer than the instant, of one tenant or of all, in order; reading it
from a number on yields exactly those with greater numbers; and what follows an
entry is read alike from the time of the entry and from its number.
-/
theorem Run.tail_is_exact
    {limit capacity lifetime : Nat}
    {tenantField : String}
    {calls : List (Moment × Call)}
    {s : Store}
    (h : Run (Store.new limit capacity lifetime tenantField) calls s) :
    (s.log.entries.Pairwise fun e e' => e.timestamp.micros < e'.timestamp.micros) ∧
    (∀ (instant : Timestamp) (tenant : Option String),
      s.log.since instant tenant =
        s.log.entries.filter fun e =>
          tenant.all (· = e.tenant) && decide (instant.micros < e.timestamp.micros)) ∧
    (∀ n, s.log.after n = s.log.entries.filter fun e => decide (n < e.sequence)) ∧
    ∀ earlier e later, s.log.entries = earlier ++ e :: later →
      s.log.since e.timestamp none = later ∧ s.log.after e.sequence = later := by
  have hascends := h.timed.ascends
  refine ⟨hascends, ChangeLog.since_eq_filter hascends, ChangeLog.after_eq_filter h.numbered, ?_⟩
  intro earlier e later hentries
  refine ⟨ChangeLog.since_timestamp hascends hentries, ?_⟩
  have hnumber := h.log_accounts_for_documents.numbered earlier e later hentries
  unfold ChangeLog.after
  rw [hnumber, hentries, List.drop_append, List.drop_of_length_le (by omega)]
  simp

/--
Orders are created, one of them once more in vain, one that is not there is
deleted, and one is closed and opened again, while the wall clock stands still
and goes back.
-/
def wavering : List (Moment × Call) :=
  [(⟨1, fun _ => ⟨9⟩⟩, .create "T1" "ann" "orders/O1" (.ofNat 1) none),
   (⟨2, fun _ => ⟨9⟩⟩, .create "T2" "bob" "orders/O1" (.ofNat 2) none),
   (⟨3, fun _ => ⟨3⟩⟩, .create "T1" "bob" "orders/O1" (.ofNat 9) none),
   (⟨4, fun _ => ⟨3⟩⟩, .delete "T1" "bob" "orders/O2" none none),
   (⟨5, fun _ => ⟨3⟩⟩, .commit closing "ann")]

/-- The creation in vain has spent a time, and the commit goes on from there. -/
theorem wavering_tail_is_exact :
    let s := (Store.new 500 100 600000 "tenantId").afterCalls wavering
    Run (Store.new 500 100 600000 "tenantId") wavering s ∧
    s.log.entries.map LogEntry.timestamp = [⟨9⟩, ⟨10⟩, ⟨12⟩, ⟨13⟩] ∧
    (s.log.since ⟨9⟩ (some "T1")).map LogEntry.sequence = [3, 4] ∧
    s.log.since ⟨10⟩ none = s.log.after 2 := by
  intro s
  have hrun : Run (Store.new 500 100 600000 "tenantId") wavering s :=
    Run.start.afterCalls wavering
  obtain ⟨-, hsince, hafter, -⟩ := hrun.tail_is_exact
  refine ⟨hrun, by decide +kernel, ?_, ?_⟩
  · rw [hsince]
    decide +kernel
  · rw [hsince, hafter]
    decide +kernel

end Store
end DocumentStore
