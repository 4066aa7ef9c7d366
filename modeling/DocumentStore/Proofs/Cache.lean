import DocumentStore.Cache

/-!
# Laws of expiring caches

A lookup only ever drops or reorders entries, and an insertion only ever adds
the one it was given.  Whether a key is answered depends on its own entry
alone, so a lookup of one key leaves the answers for the others as they were.
The statistics tell whether entries were dropped; while none are, every key
keeps its value.
-/

namespace DocumentStore

universe u v

namespace Cache

variable {κ : Type u} {ν : Type v}

theorem mem_of_mem_sweep
    {c : Cache κ ν}
    {now : Nat}
    {e : CacheEntry κ ν}
    (h : e ∈ (c.sweep now).2.entries) :
    e ∈ c.entries :=
  (List.mem_filter.1 h).1

/-- How many entries were dropped so far: the expired ones and those that made room. -/
def dropped (c : Cache κ ν) : Nat :=
  c.stats.evictions + c.stats.expirations

theorem dropped_le_sweep
    (c : Cache κ ν)
    (now : Nat) :
    c.dropped ≤ (c.sweep now).2.dropped := by
  unfold sweep dropped
  dsimp only
  omega

/-- A sweep that drops nothing leaves all entries. -/
theorem entries_sweep_of_dropped_eq
    {c : Cache κ ν}
    {now : Nat}
    (h : (c.sweep now).2.dropped = c.dropped) :
    (c.sweep now).2.entries = c.entries := by
  have hnone : (c.entries.filter (c.expired now)).length = 0 := by
    unfold sweep dropped at h
    dsimp only at h
    omega
  refine List.filter_eq_self.2 fun e he => ?_
  have hlive := List.filter_eq_nil_iff.1 (List.length_eq_zero_iff.1 hnone) e he
  simpa using hlive

variable [DecidableEq κ]

theorem mem_of_entryAt?
    {c : Cache κ ν}
    {key : κ}
    {e : CacheEntry κ ν}
    (h : c.entryAt? key = some e) :
    e ∈ c.entries ∧ e.key = key :=
  ⟨List.mem_of_find?_eq_some h, by simpa using List.find?_some h⟩

theorem without_of_entryAt?_eq_none
    {c : Cache κ ν}
    {key : κ}
    (h : c.entryAt? key = none) :
    c.without key = c.entries := by
  refine List.filter_eq_self.2 fun e he => ?_
  simpa using List.find?_eq_none.1 h e he

/-! ### Lookups and insertions, case by case -/

/-- What a lookup answers and leaves: the key has no entry, an expired one or a live one. -/
inductive Gets
    (c : Cache κ ν)
    (key : κ)
    (now : Nat) :
    Option ν × Cache κ ν → Prop
  | missing
      (hentry : c.entryAt? key = none) :
      Gets c key now (none, { c with stats := { c.stats with misses := c.stats.misses + 1 } })
  | expired
      {e : CacheEntry κ ν}
      (hentry : c.entryAt? key = some e)
      (hexpired : c.expired now e = true) :
      Gets c key now
        (none,
          { c with
            entries := c.without key
            stats :=
              { c.stats with
                misses := c.stats.misses + 1
                expirations := c.stats.expirations + 1 } })
  | live
      {e : CacheEntry κ ν}
      (hentry : c.entryAt? key = some e)
      (hlive : c.expired now e = false) :
      Gets c key now
        (some e.value,
          { c with
            entries := e :: c.without key
            stats := { c.stats with hits := c.stats.hits + 1 } })

theorem gets
    (c : Cache κ ν)
    (key : κ)
    (now : Nat) :
    Gets c key now (c.get key now) := by
  unfold get
  cases hentry : c.entryAt? key with
  | none =>
      exact .missing hentry
  | some e =>
      dsimp only
      split
      · next hexpired =>
          exact .expired hentry hexpired
      · next hlive =>
          exact .live hentry (Bool.eq_false_iff.2 hlive)

/--
What an insertion reports and leaves: the entry of the key is replaced, there
is room for a new one, or the last of the others makes room, if there is one.
-/
inductive Inserts
    (c : Cache κ ν)
    (key : κ)
    (value : ν)
    (now : Nat) :
    Option κ × Cache κ ν → Prop
  | replaced
      {e : CacheEntry κ ν}
      (hentry : c.entryAt? key = some e) :
      Inserts c key value now
        (none, { c with entries := ⟨key, value, now⟩ :: c.without key })
  | added
      (hentry : c.entryAt? key = none)
      (hroom : c.size < c.capacity) :
      Inserts c key value now
        (none, { c with entries := ⟨key, value, now⟩ :: c.entries })
  | alone
      (hentry : c.entryAt? key = none)
      (hfull : c.capacity ≤ c.size)
      (hempty : c.entries = []) :
      Inserts c key value now (none, { c with entries := [⟨key, value, now⟩] })
  | expired
      {init : List (CacheEntry κ ν)}
      {last : CacheEntry κ ν}
      (hentry : c.entryAt? key = none)
      (hfull : c.capacity ≤ c.size)
      (hlast : c.entries = init ++ [last])
      (hexpired : c.expired now last = true) :
      Inserts c key value now
        (none,
          { c with
            entries := ⟨key, value, now⟩ :: init
            stats := { c.stats with expirations := c.stats.expirations + 1 } })
  | evicted
      {init : List (CacheEntry κ ν)}
      {last : CacheEntry κ ν}
      (hentry : c.entryAt? key = none)
      (hfull : c.capacity ≤ c.size)
      (hlast : c.entries = init ++ [last])
      (hlive : c.expired now last = false) :
      Inserts c key value now
        (some last.key,
          { c with
            entries := ⟨key, value, now⟩ :: init
            stats := { c.stats with evictions := c.stats.evictions + 1 } })

theorem inserts
    (c : Cache κ ν)
    (key : κ)
    (value : ν)
    (now : Nat) :
    Inserts c key value now (c.insert key value now) := by
  unfold insert
  dsimp only
  cases hentry : c.entryAt? key with
  | some e =>
      exact .replaced hentry
  | none =>
      rw [if_neg (by simp)]
      by_cases hroom : c.entries.length < c.capacity
      · rw [if_pos hroom]
        exact .added hentry hroom
      · rw [if_neg hroom]
        have hfull : c.capacity ≤ c.size := Nat.not_lt.1 hroom
        rcases List.eq_nil_or_concat c.entries with hempty | ⟨init, last, hconcat⟩
        · rw [hempty]
          exact .alone hentry hfull hempty
        · rw [List.concat_eq_append] at hconcat
          rw [hconcat, List.getLast?_concat, List.dropLast_concat]
          dsimp only
          cases hexpired : c.expired now last with
          | true => exact .expired hentry hfull hconcat hexpired
          | false => exact .evicted hentry hfull hconcat hexpired

/-! ### What sweeps, lookups and insertions leave -/

theorem entryAt?_sweep_of_live
    {c : Cache κ ν}
    {key : κ}
    {now : Nat}
    {e : CacheEntry κ ν}
    (h : c.entryAt? key = some e)
    (hlive : c.expired now e = false) :
    (c.sweep now).2.entryAt? key = some e := by
  obtain ⟨hkey, before, after, hentries, hbefore⟩ := List.find?_eq_some_iff_append.1 h
  have hnone : (before.filter fun e => !c.expired now e).find? (fun e => e.key = key) = none :=
    List.find?_eq_none.2 fun e' he' => by simpa using hbefore e' (List.mem_filter.1 he').1
  unfold sweep entryAt?
  dsimp only
  rw [hentries, List.filter_append, List.find?_append, hnone, Option.none_or,
    List.filter_cons_of_pos (by simpa using hlive)]
  exact List.find?_cons_of_pos (by simpa using hkey)

/-- A lookup leaves old entries only. -/
theorem mem_of_mem_get
    {c : Cache κ ν}
    {key : κ}
    {now : Nat}
    {e : CacheEntry κ ν}
    (h : e ∈ (c.get key now).2.entries) :
    e ∈ c.entries := by
  have hgets := c.gets key now
  generalize c.get key now = result at hgets h
  cases hgets with
  | missing hentry =>
      exact h
  | expired hentry hexpired =>
      exact (List.mem_filter.1 h).1
  | live hentry hlive =>
      rcases List.mem_cons.1 h with rfl | hold
      · exact (mem_of_entryAt? hentry).1
      · exact (List.mem_filter.1 hold).1

/-- An insertion leaves the new entry and old ones. -/
theorem mem_of_mem_insert
    {c : Cache κ ν}
    {key : κ}
    {value : ν}
    {now : Nat}
    {e : CacheEntry κ ν}
    (h : e ∈ (c.insert key value now).2.entries) :
    e = ⟨key, value, now⟩ ∨ e ∈ c.entries := by
  have hinserts := c.inserts key value now
  generalize c.insert key value now = result at hinserts h
  cases hinserts with
  | replaced hentry =>
      exact (List.mem_cons.1 h).imp_right fun hold => (List.mem_filter.1 hold).1
  | added hentry hroom =>
      exact List.mem_cons.1 h
  | alone hentry hfull hempty =>
      exact .inl (List.mem_singleton.1 h)
  | expired hentry hfull hlast =>
      rw [hlast]
      exact (List.mem_cons.1 h).imp_right (List.mem_append_left _)
  | evicted hentry hfull hlast =>
      rw [hlast]
      exact (List.mem_cons.1 h).imp_right (List.mem_append_left _)

/-- A lookup answers with the value of the entry of the key, while that lives. -/
theorem get_fst
    (c : Cache κ ν)
    (key : κ)
    (now : Nat) :
    (c.get key now).1 =
      ((c.entryAt? key).filter fun e => !c.expired now e).map CacheEntry.value := by
  have hgets := c.gets key now
  generalize c.get key now = result at hgets ⊢
  cases hgets with
  | missing hentry =>
      simp [hentry]
  | expired hentry hexpired =>
      rw [hentry, Option.filter_some_neg (by simpa using hexpired)]
      rfl
  | live hentry hlive =>
      rw [hentry, Option.filter_some_pos (by simpa using hlive)]
      rfl

theorem exists_of_get_eq_some
    {c : Cache κ ν}
    {key : κ}
    {now : Nat}
    {value : ν}
    (h : (c.get key now).1 = some value) :
    ∃ e ∈ c.entries, e.key = key ∧ e.value = value := by
  rw [get_fst, Option.map_eq_some_iff] at h
  obtain ⟨e, hfilter, rfl⟩ := h
  obtain ⟨hmem, hkey⟩ := mem_of_entryAt? (Option.filter_eq_some_iff.1 hfilter).1
  exact ⟨e, hmem, hkey, rfl⟩

/-- Taking out one key leaves the entry of another. -/
theorem find?_without_of_ne
    (c : Cache κ ν)
    {key other : κ}
    (hne : other ≠ key) :
    (c.without key).find? (fun e => e.key = other) = c.entryAt? other := by
  unfold without entryAt?
  rw [List.find?_filter]
  congr 1
  funext e
  by_cases he : e.key = other
  · simp [he, hne]
  · simp [he]

/-- A lookup leaves the entries of other keys alone. -/
theorem entryAt?_get_of_ne
    (c : Cache κ ν)
    {key other : κ}
    (now : Nat)
    (hne : other ≠ key) :
    (c.get key now).2.entryAt? other = c.entryAt? other := by
  have hwithout := c.find?_without_of_ne hne
  have hgets := c.gets key now
  generalize c.get key now = result at hgets ⊢
  cases hgets with
  | missing hentry =>
      rfl
  | expired hentry hexpired =>
      exact hwithout
  | @live e hentry hlive =>
      have hkey : e.key ≠ other := fun h => hne (h.symm.trans (mem_of_entryAt? hentry).2)
      rw [← hwithout]
      exact List.find?_cons_of_neg (by simpa using hkey)

/-- Lookups do not change how long entries live. -/
theorem expired_get
    (c : Cache κ ν)
    (key : κ)
    (now : Nat) :
    (c.get key now).2.expired = c.expired := by
  have hgets := c.gets key now
  generalize c.get key now = result at hgets ⊢
  cases hgets <;> rfl

/-- A key that was not found is not there any more. -/
theorem entryAt?_get_of_eq_none
    {c : Cache κ ν}
    {key : κ}
    {now : Nat}
    (h : (c.get key now).1 = none) :
    (c.get key now).2.entryAt? key = none := by
  have hgets := c.gets key now
  generalize c.get key now = result at hgets h ⊢
  cases hgets with
  | missing hentry =>
      exact hentry
  | expired hentry hexpired =>
      simp [entryAt?, without]
  | live hentry hlive =>
      cases h

/-- After a lookup that found nothing, every other lookup finds what it would have found before. -/
theorem get_fst_of_get_eq_none
    {c : Cache κ ν}
    {key : κ}
    {now : Nat}
    (h : (c.get key now).1 = none)
    (other : κ)
    (later : Nat)
    (hother : (c.get other later).1 = none) :
    ((c.get key now).2.get other later).1 = none := by
  rw [get_fst, expired_get]
  by_cases heq : other = key
  · subst heq
    rw [entryAt?_get_of_eq_none h]
    rfl
  · rw [entryAt?_get_of_ne c now heq, ← get_fst, hother]

/-- A key that was found is still there with its entry. -/
theorem entryAt?_get_of_eq_some
    {c : Cache κ ν}
    {key : κ}
    {now : Nat}
    {value : ν}
    (h : (c.get key now).1 = some value) :
    (c.get key now).2.entryAt? key = c.entryAt? key := by
  have hgets := c.gets key now
  generalize c.get key now = result at hgets h ⊢
  cases hgets with
  | missing hentry =>
      cases h
  | expired hentry hexpired =>
      cases h
  | live hentry hlive =>
      rw [hentry]
      exact List.find?_cons_of_pos (by simpa using (mem_of_entryAt? hentry).2)

/-- A lookup does not change what lookups at the same time find. -/
theorem get_fst_get
    (c : Cache κ ν)
    (key other : κ)
    (now : Nat) :
    ((c.get key now).2.get other now).1 = (c.get other now).1 := by
  by_cases heq : other = key
  · subst heq
    cases hfound : (c.get other now).1 with
    | none =>
        exact get_fst_of_get_eq_none hfound other now hfound
    | some value =>
        rw [get_fst, expired_get, entryAt?_get_of_eq_some hfound, ← get_fst, hfound]
  · rw [get_fst, expired_get, entryAt?_get_of_ne c now heq, ← get_fst]

/-! ### What is dropped -/

/-- The value of a key, live or not. -/
def value?
    (c : Cache κ ν)
    (key : κ) :
    Option ν :=
  (c.entryAt? key).map CacheEntry.value

theorem dropped_le_get
    (c : Cache κ ν)
    (key : κ)
    (now : Nat) :
    c.dropped ≤ (c.get key now).2.dropped := by
  have hgets := c.gets key now
  generalize c.get key now = result at hgets ⊢
  cases hgets with
  | missing hentry => exact Nat.le_refl _
  | expired hentry hexpired => exact Nat.le_succ _
  | live hentry hlive => exact Nat.le_refl _

/-- A lookup that drops nothing answers with the value of its key. -/
theorem get_fst_of_dropped_eq
    {c : Cache κ ν}
    {key : κ}
    {now : Nat}
    (h : (c.get key now).2.dropped = c.dropped) :
    (c.get key now).1 = c.value? key := by
  unfold value?
  have hgets := c.gets key now
  generalize c.get key now = result at hgets h ⊢
  cases hgets with
  | missing hentry =>
      rw [hentry]
      rfl
  | expired hentry hexpired =>
      simp only [dropped] at h
      omega
  | live hentry hlive =>
      rw [hentry]
      rfl

theorem entryAt?_of_entryAt?_get
    {c : Cache κ ν}
    {key other : κ}
    {now : Nat}
    {e : CacheEntry κ ν}
    (h : (c.get key now).2.entryAt? other = some e) :
    c.entryAt? other = some e := by
  by_cases heq : other = key
  · subst heq
    cases hfound : (c.get other now).1 with
    | none =>
        rw [entryAt?_get_of_eq_none hfound] at h
        cases h
    | some value =>
        rwa [entryAt?_get_of_eq_some hfound] at h
  · rwa [entryAt?_get_of_ne c now heq] at h

/-- A lookup that drops nothing leaves the entries of all keys. -/
theorem entryAt?_get_of_dropped_eq
    {c : Cache κ ν}
    {key other : κ}
    {now : Nat}
    {e : CacheEntry κ ν}
    (h : (c.get key now).2.dropped = c.dropped)
    (hother : c.entryAt? other = some e) :
    (c.get key now).2.entryAt? other = some e := by
  by_cases heq : other = key
  · subst heq
    have hfound : (c.get other now).1 = some e.value := by
      rw [get_fst_of_dropped_eq h, value?, hother]
      rfl
    rw [entryAt?_get_of_eq_some hfound, hother]
  · rw [entryAt?_get_of_ne c now heq, hother]

theorem dropped_le_insert
    (c : Cache κ ν)
    (key : κ)
    (value : ν)
    (now : Nat) :
    c.dropped ≤ (c.insert key value now).2.dropped := by
  unfold dropped
  have hinserts := c.inserts key value now
  generalize c.insert key value now = result at hinserts ⊢
  cases hinserts <;> dsimp only <;> omega

/-- An inserted entry is that of its key. -/
theorem entryAt?_insert_self
    (c : Cache κ ν)
    (key : κ)
    (value : ν)
    (now : Nat) :
    (c.insert key value now).2.entryAt? key = some ⟨key, value, now⟩ := by
  have hhead : ∀ rest : List (CacheEntry κ ν),
      (⟨key, value, now⟩ :: rest).find? (fun e => e.key = key) = some ⟨key, value, now⟩ :=
    fun rest => List.find?_cons_of_pos (by simp)
  have hinserts := c.inserts key value now
  generalize c.insert key value now = result at hinserts ⊢
  cases hinserts <;> exact hhead _

theorem find?_cons_of_ne
    {key other : κ}
    (value : ν)
    (now : Nat)
    (hne : other ≠ key)
    (rest : List (CacheEntry κ ν)) :
    (⟨key, value, now⟩ :: rest).find? (fun e => e.key = other) =
      rest.find? fun e => e.key = other :=
  List.find?_cons_of_neg (by simpa using Ne.symm hne)

/-- An insertion does not give an entry to another key. -/
theorem entryAt?_of_entryAt?_insert
    {c : Cache κ ν}
    {key other : κ}
    {value : ν}
    {now : Nat}
    {e : CacheEntry κ ν}
    (hne : other ≠ key)
    (h : (c.insert key value now).2.entryAt? other = some e) :
    c.entryAt? other = some e := by
  have htail := find?_cons_of_ne value now hne
  -- the displaced entry is the last one, so that no other is hidden behind it
  have hfront : ∀ {init : List (CacheEntry κ ν)} {last : CacheEntry κ ν},
      c.entries = init ++ [last] →
      (⟨key, value, now⟩ :: init).find? (fun e => e.key = other) = some e →
      c.entryAt? other = some e := by
    intro init last hlast hfound
    rw [htail] at hfound
    rw [entryAt?, hlast, List.find?_append, hfound]
    rfl
  have hinserts := c.inserts key value now
  generalize c.insert key value now = result at hinserts h
  cases hinserts with
  | replaced hentry =>
      rw [← c.find?_without_of_ne hne, ← h]
      exact (htail _).symm
  | added hentry hroom =>
      exact (htail _).symm.trans h
  | alone hentry hfull hempty =>
      cases (htail _).symm.trans h
  | expired hentry hfull hlast =>
      exact hfront hlast h
  | evicted hentry hfull hlast =>
      exact hfront hlast h

/-- An insertion that drops nothing leaves the entries of the other keys. -/
theorem entryAt?_insert_of_dropped_eq
    {c : Cache κ ν}
    {key other : κ}
    {value : ν}
    {now : Nat}
    (hne : other ≠ key)
    (h : (c.insert key value now).2.dropped = c.dropped) :
    (c.insert key value now).2.entryAt? other = c.entryAt? other := by
  have htail := find?_cons_of_ne value now hne
  have hinserts := c.inserts key value now
  generalize c.insert key value now = result at hinserts h ⊢
  cases hinserts with
  | replaced hentry =>
      rw [← c.find?_without_of_ne hne]
      exact htail _
  | added hentry hroom =>
      exact htail _
  | alone hentry hfull hempty =>
      rw [entryAt?, entryAt?, hempty]
      exact htail []
  | expired =>
      simp only [dropped] at h
      omega
  | evicted =>
      simp only [dropped] at h
      omega

end Cache
end DocumentStore
