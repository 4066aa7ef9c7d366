import DocumentStore.Proofs.Cache.Runs

/-!
# The accounts of an expiring table

What a table that started empty answers and counts after a run can be told from
the calls of the run.  A lookup finds the value of the latest insertion of its key
unless that is too old, or an insertion pushed the key out, or a lookup or a sweep
found it expired.  What is pushed out of a full table is the key with the oldest
last use.  Every lookup is a hit or a miss, and every entry that came in is still
there or was counted when it went.
-/

namespace DocumentStore

universe u v

namespace Cache

variable {κ : Type u} {ν : Type v} [DecidableEq κ] {c : Cache κ ν}

/-- A key that is held, and that was last used before every other one that is held. -/
def Oldest
    (uses : List κ)
    (c : Cache κ ν)
    (key : κ) :
    Prop :=
  (c.entryAt? key).isSome = true ∧
    ∀ other, other ≠ key → (c.entryAt? other).isSome = true → UsedSince uses key other

/-! ### The last entry -/

section Last

variable {init : List (CacheEntry κ ν)} {last : CacheEntry κ ν}

theorem Proper.entryAt?_last
    (h : c.Proper)
    (hlast : c.entries = init ++ [last]) :
    c.entryAt? last.key = some last :=
  h.entryAt?_eq_some_iff.2 ⟨hlast ▸ List.mem_append_right _ List.mem_cons_self, rfl⟩

/-- Only the key of the last entry loses its entry with it. -/
theorem Proper.lost_iff_last
    (h : c.Proper)
    (hlast : c.entries = init ++ [last])
    {key : κ} :
    (c.entryAt? key).isSome = true ∧ init.find? (fun e => e.key = key) = none ↔
      last.key = key := by
  constructor
  · rintro ⟨hheld, hnone⟩
    obtain ⟨e, hentry⟩ := Option.isSome_iff_exists.1 hheld
    obtain ⟨hmem, hkey⟩ := mem_of_entryAt? hentry
    rw [hlast] at hmem
    rcases List.mem_append.1 hmem with hinit | hend
    · exact absurd (decide_eq_true hkey) (List.find?_eq_none.1 hnone e hinit)
    · rwa [← List.mem_singleton.1 hend]
  · rintro rfl
    have hnodup := h.nodup
    rw [hlast, List.map_append, List.nodup_append] at hnodup
    refine ⟨by rw [h.entryAt?_last hlast]; rfl, ?_⟩
    refine List.find?_eq_none.2 fun e he hsame => ?_
    exact hnodup.2.2 e.key (List.mem_map_of_mem he) last.key List.mem_cons_self
      (of_decide_eq_true hsame)

/-- A key that is new to a full table pushes out the key of the last entry. -/
theorem Proper.pushesOut_iff_last
    (h : c.Proper)
    (hlast : c.entries = init ++ [last])
    {key old : κ}
    {value : ν}
    {now : Nat} :
    c.PushesOut key value now old ↔
      c.entryAt? key = none ∧ c.size = c.capacity ∧ last.key = old := by
  by_cases heq : old = key
  · -- a key does not push out itself, and is not new if it has the last entry
    subst heq
    refine iff_of_false (fun hout => ?_) fun ⟨hnone, _, hkey⟩ => ?_
    · cases hout.2.symm.trans (c.entryAt?_insert_self old value now)
    · have hheld := ((h.lost_iff_last hlast).2 hkey).1
      rw [hnone] at hheld
      cases hheld
  have hkept : (c.insert key value now).2.dropped = c.dropped →
      ¬ c.PushesOut key value now old := by
    rintro hdropped ⟨hheld, hnone⟩
    rw [entryAt?_insert_of_dropped_eq heq hdropped] at hnone
    rw [hnone] at hheld
    cases hheld
  have hmakes : ∀ {init' : List (CacheEntry κ ν)} {last' : CacheEntry κ ν},
      c.entries = init' ++ [last'] →
      ((c.entryAt? old).isSome = true ∧
          (⟨key, value, now⟩ :: init').find? (fun e => e.key = old) = none ↔
        last.key = old) := by
    intro init' last' hlast'
    obtain ⟨rfl, -⟩ := List.append_inj' (hlast.symm.trans hlast') rfl
    rw [find?_cons_of_ne value now heq]
    exact h.lost_iff_last hlast
  have hinserted := h.bounded.inserted key value now
  unfold PushesOut at *
  generalize c.insert key value now = result at hinserted hkept
  cases hinserted with
  | replaced hentry =>
      exact iff_of_false (hkept rfl) fun hout => by simp [hentry] at hout
  | added hentry hroom =>
      exact iff_of_false (hkept rfl) fun hout => by omega
  | expired hentry hfull hlast' hexpired =>
      rw [and_iff_right hentry, and_iff_right hfull]
      exact hmakes hlast'
  | evicted hentry hfull hlast' hlive =>
      rw [and_iff_right hentry, and_iff_right hfull]
      exact hmakes hlast'

/-- The last entry is of the key that was last used before the others. -/
theorem ByUse.oldest_iff_last
    {uses : List κ}
    (h : c.ByUse uses)
    (hproper : c.Proper)
    (hlast : c.entries = init ++ [last])
    {key : κ} :
    c.Oldest uses key ↔ last.key = key := by
  have hordered := h.ordered
  rw [hlast, List.pairwise_append] at hordered
  have hafter : ∀ other, other ≠ last.key → (c.entryAt? other).isSome = true →
      UsedSince uses last.key other := by
    intro other hne hheld
    obtain ⟨e, hentry⟩ := Option.isSome_iff_exists.1 hheld
    obtain ⟨hmem, rfl⟩ := mem_of_entryAt? hentry
    rw [hlast] at hmem
    rcases List.mem_append.1 hmem with hinit | hend
    · exact hordered.2.2 e hinit last List.mem_cons_self
    · exact absurd (congrArg CacheEntry.key (List.mem_singleton.1 hend)) hne
  have hheld := ((hproper.lost_iff_last hlast).2 rfl).1
  constructor
  · rintro ⟨hkey, holdest⟩
    by_contra hne
    exact (holdest last.key hne hheld).asymm (hafter key (Ne.symm hne) hkey)
  · rintro rfl
    exact ⟨hheld, hafter⟩

end Last

/-! ### What makes room -/

/-- A key that is new to a full table pushes out the one with the oldest last use. -/
theorem ByUse.pushesOut_iff
    {uses : List κ}
    (h : c.ByUse uses)
    (hproper : c.Proper)
    {key old : κ}
    {value : ν}
    {now : Nat} :
    c.PushesOut key value now old ↔
      c.entryAt? key = none ∧ c.size = c.capacity ∧ c.Oldest uses old := by
  rcases List.eq_nil_or_concat c.entries with hnil | ⟨init, last, hconcat⟩
  · have hnone : c.entryAt? old = none := by rw [entryAt?, hnil, List.find?_nil]
    have hheld : ¬ (c.entryAt? old).isSome = true := by rw [hnone]; exact Bool.false_ne_true
    exact iff_of_false (fun hout => hheld hout.1) fun hout => hheld hout.2.2.1
  · rw [List.concat_eq_append] at hconcat
    rw [hproper.pushesOut_iff_last hconcat, h.oldest_iff_last hproper hconcat]

/-- An insertion reports the key that it pushes out if the entry was still live. -/
theorem Proper.insert_fst_iff
    (h : c.Proper)
    {key old : κ}
    {value : ν}
    {now : Nat} :
    (c.insert key value now).1 = some old ↔
      c.PushesOut key value now old ∧
        ∃ e, c.entryAt? old = some e ∧ now - e.insertedAt < c.lifetime := by
  have hinserted := h.bounded.inserted key value now
  constructor
  · intro hreported
    generalize c.insert key value now = result at hinserted hreported
    cases hinserted with
    | replaced hentry => cases hreported
    | added hentry hroom => cases hreported
    | expired hentry hfull hlast hexpired => cases hreported
    | @evicted init last hentry hfull hlast hlive =>
        cases hreported
        have hyoung := Nat.lt_of_not_le (of_decide_eq_false hlive)
        exact ⟨(h.pushesOut_iff_last hlast).2 ⟨hentry, hfull, rfl⟩, last,
          h.entryAt?_last hlast, hyoung⟩
  · rintro ⟨hout, e, hentry, hlive⟩
    obtain ⟨hmem, hkey⟩ := mem_of_entryAt? hentry
    rcases List.eq_nil_or_concat c.entries with hnil | ⟨init, last, hconcat⟩
    · rw [hnil] at hmem
      cases hmem
    rw [List.concat_eq_append] at hconcat
    obtain ⟨hnew, hfull, rfl⟩ := (h.pushesOut_iff_last hconcat).1 hout
    generalize c.insert key value now = result at hinserted
    cases hinserted with
    | replaced hheld => cases hnew.symm.trans hheld
    | added _ hroom => omega
    | expired _ _ hlast hexpired =>
        obtain ⟨-, hsame⟩ := List.append_inj' (hconcat.symm.trans hlast) rfl
        obtain rfl := List.singleton_inj.1 hsame
        obtain rfl := Option.some.inj (hentry.symm.trans (h.entryAt?_last hconcat))
        exact absurd (of_decide_eq_true hexpired) (Nat.not_le.2 hlive)
    | evicted _ _ hlast hlive =>
        obtain ⟨-, hsame⟩ := List.append_inj' (hconcat.symm.trans hlast) rfl
        rw [List.singleton_inj.1 hsame]

theorem Proper.entryAt?_sweep_iff
    (h : c.Proper)
    {key : κ}
    {e : CacheEntry κ ν}
    {now : Nat} :
    (c.sweep now).2.entryAt? key = some e ↔
      c.entryAt? key = some e ∧ now - e.insertedAt < c.lifetime := by
  have hsweep : (c.sweep now).2.Proper := h.after (.sweep now)
  rw [hsweep.entryAt?_eq_some_iff, h.entryAt?_eq_some_iff, and_right_comm]
  refine and_congr_left fun _ => List.mem_filter.trans (and_congr_right fun _ => ?_)
  rw [expired, Bool.not_eq_true', decide_eq_false_iff_not, Nat.not_le]

omit [DecidableEq κ] in
theorem sweep_fst_add_size
    (c : Cache κ ν)
    (now : Nat) :
    (c.sweep now).1 + (c.sweep now).2.size = c.size :=
  (List.length_eq_length_filter_add (c.expired now)).symm

theorem get_fst_iff
    {key : κ}
    {value : ν}
    {now : Nat} :
    (c.get key now).1 = some value ↔
      ∃ since, c.entryAt? key = some ⟨key, value, since⟩ ∧ now - since < c.lifetime := by
  rw [get_fst, Option.map_eq_some_iff]
  constructor
  · rintro ⟨e, hfilter, rfl⟩
    obtain ⟨hentry, hlive⟩ := Option.filter_eq_some_iff.1 hfilter
    obtain ⟨-, rfl⟩ := mem_of_entryAt? hentry
    rw [expired, Bool.not_eq_true', decide_eq_false_iff_not, Nat.not_le] at hlive
    exact ⟨e.insertedAt, hentry, hlive⟩
  · rintro ⟨since, hentry, hlive⟩
    refine ⟨⟨key, value, since⟩, Option.filter_eq_some_iff.2 ⟨hentry, ?_⟩, rfl⟩
    rwa [expired, Bool.not_eq_true', decide_eq_false_iff_not, Nat.not_le]

/-! ### The accounts of a run -/

/--
A run inserts a key, then neither inserts it again nor clears the table, and no
call after that insertion makes the key lose its entry.
-/
def Keeps
    (c : Cache κ ν)
    (calls : List (CacheCall κ ν))
    (key : κ)
    (value : ν)
    (since : Nat) :
    Prop :=
  ∃ earlier later, calls = earlier ++ .insert key value since :: later ∧
    (∀ call ∈ later, call.Leaves key) ∧
    ∀ step ∈ (c.run (earlier ++ [.insert key value since])).steps later,
      ¬ step.1.Loses key since step.2

/--
What the calls of a run tell about the table they leave: what it holds, what it
answers to one more call, and what it has counted.
-/
structure Accounts
    (capacity lifetime : Nat)
    (calls : List (CacheCall κ ν))
    (c : Cache κ ν) :
    Prop where
  /-- The table does not outgrow its room. -/
  size_le : c.size ≤ max 1 capacity
  /--
  A lookup finds the value of the latest insertion of its key since the table was
  last cleared, if that is young enough and the key has not lost it.
  -/
  found_iff : ∀ key now value,
    (c.get key now).1 = some value ↔
      ∃ since, (new capacity lifetime).Keeps calls key value since ∧ now - since < lifetime
  /-- A key that is new to a full table pushes out the one with the oldest last use. -/
  pushed_iff : ∀ key value now old,
    c.PushesOut key value now old ↔
      c.entryAt? key = none ∧ c.size = max 1 capacity ∧
        c.Oldest ((new capacity lifetime).uses calls) old
  /-- It is reported if its entry was still live. -/
  reported_iff : ∀ key value now old,
    (c.insert key value now).1 = some old ↔
      c.PushesOut key value now old ∧
        ∃ e, c.entryAt? old = some e ∧ now - e.insertedAt < lifetime
  /-- A sweep leaves what has not expired. -/
  swept_iff : ∀ now key e,
    (c.sweep now).2.entryAt? key = some e ↔
      c.entryAt? key = some e ∧ now - e.insertedAt < lifetime
  /-- A sweep tells how many entries it dropped. -/
  swept : ∀ now, (c.sweep now).1 + (c.sweep now).2.size = c.size
  /-- Every lookup is a hit or a miss. -/
  lookups : c.stats.hits + c.stats.misses = calls.countP CacheCall.isGet
  /-- Every entry that came in is there, or was evicted, or expired, or was cleared. -/
  balance :
    (new capacity lifetime).arrivals calls =
      c.size + c.stats.evictions + c.stats.expirations + (new capacity lifetime).cleared calls

section Histories

variable (capacity lifetime : Nat) (calls : List (CacheCall κ ν))

/-- A table that started empty holds what the run has kept. -/
theorem entryAt?_run_iff_keeps
    (key : κ)
    (value : ν)
    (since : Nat) :
    ((new capacity lifetime).run calls).entryAt? key = some ⟨key, value, since⟩ ↔
      (new capacity lifetime).Keeps calls key value since := by
  have hkept : ∀ {earlier later : List (CacheCall κ ν)}, (∀ call ∈ later, call.Leaves key) →
      (((new capacity lifetime).run (earlier ++ .insert key value since :: later)).entryAt? key =
          some ⟨key, value, since⟩ ↔
        ∀ step ∈ ((new capacity lifetime).run (earlier ++ [.insert key value since])).steps later,
          ¬ step.1.Loses key since step.2) := by
    intro earlier later hlater
    rw [List.append_cons, run_append]
    refine ((Proper.new capacity lifetime).run _).entryAt?_run_iff ?_ hlater
    rw [run_concat]
    exact entryAt?_insert_self ..
  constructor
  · intro hentry
    obtain ⟨earlier, later, rfl, hlater⟩ := exists_insert_of_entryAt? capacity lifetime calls hentry
    exact ⟨earlier, later, rfl, hlater, (hkept hlater).1 hentry⟩
  · rintro ⟨earlier, later, rfl, hlater, hnot⟩
    exact (hkept hlater).2 hnot

/-- A table that started empty gives a true account of its run. -/
theorem run_keeps_accounts :
    Accounts capacity lifetime calls ((new capacity lifetime).run calls) := by
  have hproper := (Proper.new capacity lifetime (κ := κ) (ν := ν)).run calls
  have hbyUse := byUse_run capacity lifetime calls
  obtain ⟨hcapacity, hlifetime⟩ := (new capacity lifetime).limits_run calls
  exact {
    size_le := by
      have hsize := hproper.bounded.size
      rwa [hcapacity] at hsize
    found_iff := fun key now value => by
      simp only [get_fst_iff, hlifetime, entryAt?_run_iff_keeps]
      rfl
    pushed_iff := fun key value now old => by
      rw [hbyUse.pushesOut_iff hproper, hcapacity]
      rfl
    reported_iff := fun key value now old => by
      rw [hproper.insert_fst_iff, hlifetime]
      rfl
    swept_iff := fun now key e => by
      rw [hproper.entryAt?_sweep_iff, hlifetime]
      rfl
    swept := sweep_fst_add_size _
    lookups := lookups_run capacity lifetime calls
    balance := by
      rw [balance_run, dropped, ← Nat.add_assoc] }

end Histories

end Cache
end DocumentStore
