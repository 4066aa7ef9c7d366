import DocumentStore.Proofs.Cache
import Mathlib.Data.List.Nodup

/-!
# Entries that outlive others

An entry covers some member entries when each of them stands behind it, so that
it was used less recently, and was inserted no later.  Then a full table
displaces the members first, and they expire first: a live member is never left
without the entry that covers it.

Being covered is kept by lookups of other keys than live members and by
insertions under keys that are not members.  An entry that is inserted last
covers all members that are there.
-/

namespace DocumentStore

universe u v

namespace Cache

variable {κ : Type u} {ν : Type v}

/-- No key has two entries, and no entry was inserted after a time. -/
structure Tidy
    (c : Cache κ ν)
    (now : Nat) :
    Prop where
  nodup : (c.entries.map CacheEntry.key).Nodup
  past : ∀ e ∈ c.entries, e.insertedAt ≤ now

/-- Every live member entry stands behind an entry of the owner that was inserted no earlier. -/
def Covered
    (owner : κ)
    (member : κ → Prop)
    (covers : ν → Prop)
    (c : Cache κ ν)
    (now : Nat) :
    Prop :=
  ∀ d ∈ c.entries, member d.key → c.expired now d = false →
    ∃ r, [r, d].Sublist c.entries ∧ r.key = owner ∧ covers r.value ∧
      d.insertedAt ≤ r.insertedAt

variable
  {owner : κ}
  {member : κ → Prop}
  {covers : ν → Prop}
  {c : Cache κ ν}
  {now now' : Nat}

/-! ### Time goes on -/

theorem expired_mono
    (hle : now ≤ now')
    {e : CacheEntry κ ν}
    (h : c.expired now' e = false) :
    c.expired now e = false := by
  unfold expired at *
  simp only [decide_eq_false_iff_not] at *
  omega

theorem live_of_insertedAt_le
    {d r : CacheEntry κ ν}
    (hle : d.insertedAt ≤ r.insertedAt)
    (h : c.expired now d = false) :
    c.expired now r = false := by
  unfold expired at *
  simp only [decide_eq_false_iff_not] at *
  omega

theorem Tidy.later
    (h : c.Tidy now)
    (hle : now ≤ now') :
    c.Tidy now' :=
  ⟨h.nodup, fun e he => Nat.le_trans (h.past e he) hle⟩

theorem Covered.later
    (h : Covered owner member covers c now)
    (hle : now ≤ now') :
    Covered owner member covers c now' :=
  fun d hd hmember hlive => h d hd hmember (expired_mono hle hlive)

/-! ### Parts of the entries -/

theorem Tidy.of_sublist
    {c' : Cache κ ν}
    (h : c.Tidy now)
    (hsublist : c'.entries.Sublist c.entries) :
    c'.Tidy now where
  nodup := h.nodup.sublist (hsublist.map CacheEntry.key)
  past e he := h.past e (hsublist.mem he)

theorem Tidy.eq_of_key_eq
    (h : c.Tidy now)
    {a b : CacheEntry κ ν}
    (ha : a ∈ c.entries)
    (hb : b ∈ c.entries)
    (hkey : a.key = b.key) :
    a = b :=
  List.inj_on_of_nodup_map h.nodup ha hb hkey

/-- Two entries in a row are in a row in every first part that has the second. -/
theorem pair_sublist_of_front
    {r d : CacheEntry κ ν}
    {entries first : List (CacheEntry κ ν)}
    (hnodup : (entries.map CacheEntry.key).Nodup)
    (hpair : [r, d].Sublist entries)
    (hfront : first <+: entries)
    (hd : d ∈ first) :
    [r, d].Sublist first := by
  obtain ⟨rest, rfl⟩ := hfront
  obtain ⟨left, right, heq, hleft, hright⟩ := List.sublist_append_iff.1 hpair
  rcases List.eq_nil_or_concat right with rfl | ⟨init, last, rfl⟩
  · rw [List.append_nil] at heq
    rwa [heq]
  · -- otherwise the second entry stands in the first part and in the rest
    have hlast : last = d := by
      have hends := congrArg List.getLast? heq
      rw [List.concat_eq_append, ← List.append_assoc, List.getLast?_concat] at hends
      exact (Option.some.inj hends).symm
    subst hlast
    have hrest : last ∈ rest := hright.mem (by simp)
    rw [List.map_append] at hnodup
    have hdisjoint := (List.nodup_append.1 hnodup).2.2
    exact absurd rfl (hdisjoint _ (List.mem_map_of_mem hd) _ (List.mem_map_of_mem hrest))

theorem Tidy.sweep
    (h : c.Tidy now) :
    (c.sweep now).2.Tidy now :=
  h.of_sublist List.filter_sublist

theorem Covered.sweep
    (h : Covered owner member covers c now) :
    Covered owner member covers (c.sweep now).2 now := by
  intro d hd hmember hlive
  have hlive : c.expired now d = false := hlive
  obtain ⟨r, hpair, hkey, hcovers, hle⟩ := h d (mem_of_mem_sweep hd) hmember hlive
  refine ⟨r, ?_, hkey, hcovers, hle⟩
  have hrlive : c.expired now r = false := live_of_insertedAt_le hle hlive
  have hfilter := hpair.filter fun e => !c.expired now e
  rwa [List.filter_cons_of_pos (by simp [hrlive]), List.filter_cons_of_pos (by simpa using hlive)]
    at hfilter

variable [DecidableEq κ]

/-- Two entries of other keys stay in a row when a key is taken out. -/
theorem pair_sublist_without
    {r d : CacheEntry κ ν}
    {key : κ}
    (hpair : [r, d].Sublist c.entries)
    (hr : r.key ≠ key)
    (hd : d.key ≠ key) :
    [r, d].Sublist (c.without key) := by
  have hfilter := hpair.filter fun e => e.key ≠ key
  rwa [List.filter_cons_of_pos (by simpa using hr), List.filter_cons_of_pos (by simpa using hd)]
    at hfilter

/-! ### Lookups -/

/-- A lookup that finds nothing leaves the entries of the other keys. -/
theorem entries_get_of_eq_none
    {key : κ}
    (h : (c.get key now).1 = none) :
    (c.get key now).2.entries = c.without key := by
  have hgets := c.gets key now
  generalize c.get key now = result at hgets h ⊢
  cases hgets with
  | missing hentry =>
      exact (without_of_entryAt?_eq_none hentry).symm
  | expired hentry hexpired =>
      rfl
  | live hentry hlive =>
      cases h

theorem entries_get_of_eq_some
    {key : κ}
    {value : ν}
    (h : (c.get key now).1 = some value) :
    ∃ e ∈ c.entries, e.key = key ∧ e.value = value ∧ c.expired now e = false ∧
      (c.get key now).2.entries = e :: c.without key := by
  have hgets := c.gets key now
  generalize c.get key now = result at hgets h ⊢
  cases hgets with
  | missing hentry =>
      cases h
  | expired hentry hexpired =>
      cases h
  | @live e hentry hlive =>
      obtain ⟨hmem, hkey⟩ := mem_of_entryAt? hentry
      exact ⟨e, hmem, hkey, Option.some.inj h, hlive, rfl⟩

theorem notMem_keys_without
    (c : Cache κ ν)
    (key : κ) :
    key ∉ (c.without key).map CacheEntry.key := by
  simp [without]

theorem Tidy.get
    (h : c.Tidy now)
    (key : κ) :
    (c.get key now).2.Tidy now := by
  have hwithout : (c.without key).Sublist c.entries := List.filter_sublist
  refine ⟨?_, fun e he => h.past e (mem_of_mem_get he)⟩
  cases hget : (c.get key now).1 with
  | none =>
      rw [entries_get_of_eq_none hget]
      exact h.nodup.sublist (hwithout.map CacheEntry.key)
  | some value =>
      obtain ⟨e, -, hkey, -, -, hentries⟩ := entries_get_of_eq_some hget
      rw [hentries, List.map_cons, hkey]
      exact List.nodup_cons.2
        ⟨c.notMem_keys_without key, h.nodup.sublist (hwithout.map CacheEntry.key)⟩

theorem Tidy.get_fst_of_live
    (h : c.Tidy now)
    {e : CacheEntry κ ν}
    (he : e ∈ c.entries)
    (hlive : c.expired now e = false) :
    (c.get e.key now).1 = some e.value := by
  have hentry : c.entryAt? e.key = some e := by
    cases hfound : c.entryAt? e.key with
    | none =>
        simpa using List.find?_eq_none.1 hfound e he
    | some found =>
        obtain ⟨hmem, hkey⟩ := mem_of_entryAt? hfound
        rw [h.eq_of_key_eq hmem he hkey]
  rw [get_fst, hentry]
  simp [hlive]

/-- A lookup of a key that is not a live member leaves the members covered. -/
theorem Covered.get
    (h : Covered owner member covers c now)
    (htidy : c.Tidy now)
    {key : κ}
    (hkey : ¬ member key ∨ (c.get key now).1 = none) :
    Covered owner member covers (c.get key now).2 now := by
  intro d hd hmember hlive
  rw [expired_get] at hlive
  obtain ⟨r, hpair, howner, hcovers, hle⟩ := h d (mem_of_mem_get hd) hmember hlive
  refine ⟨r, ?_, howner, hcovers, hle⟩
  have hr : r ∈ c.entries := hpair.mem List.mem_cons_self
  cases hget : (c.get key now).1 with
  | none =>
      rw [entries_get_of_eq_none hget] at hd ⊢
      have hdkey : d.key ≠ key := by simpa using (List.mem_filter.1 hd).2
      refine pair_sublist_without hpair ?_ hdkey
      rintro rfl
      -- the entry of the owner is live, so that it would have been found
      rw [htidy.get_fst_of_live hr (live_of_insertedAt_le hle hlive)] at hget
      cases hget
  | some value =>
      obtain ⟨e, he, hekey, -, -, hentries⟩ := entries_get_of_eq_some hget
      have hnot : ¬ member key := by
        rcases hkey with hnot | hnone
        · exact hnot
        · rw [hget] at hnone
          cases hnone
      have hdkey : d.key ≠ key := fun heq => hnot (heq ▸ hmember)
      rw [hentries] at hd ⊢
      by_cases hrkey : r.key = key
      · obtain rfl := htidy.eq_of_key_eq hr he (hrkey.trans hekey.symm)
        rcases List.mem_cons.1 hd with rfl | hd
        · exact absurd hekey hdkey
        · exact (List.singleton_sublist.2 hd).cons_cons r
      · exact (pair_sublist_without hpair hrkey hdkey).cons e

/-! ### Insertions -/

/-- An insertion puts the new entry in front of a first part of those of the other keys. -/
theorem entries_insert
    (c : Cache κ ν)
    (key : κ)
    (value : ν)
    (now : Nat) :
    ∃ first, (c.insert key value now).2.entries = ⟨key, value, now⟩ :: first ∧
      first <+: c.without key := by
  have hinserts := c.inserts key value now
  generalize c.insert key value now = result at hinserts ⊢
  cases hinserts with
  | replaced hentry =>
      exact ⟨_, rfl, List.prefix_refl _⟩
  | added hentry hroom =>
      rw [without_of_entryAt?_eq_none hentry]
      exact ⟨_, rfl, List.prefix_refl _⟩
  | alone hentry hfull hempty =>
      exact ⟨[], rfl, List.nil_prefix⟩
  | expired hentry hfull hlast =>
      rw [without_of_entryAt?_eq_none hentry, hlast]
      exact ⟨_, rfl, List.prefix_append _ _⟩
  | evicted hentry hfull hlast =>
      rw [without_of_entryAt?_eq_none hentry, hlast]
      exact ⟨_, rfl, List.prefix_append _ _⟩

theorem Tidy.insert
    (h : c.Tidy now)
    (key : κ)
    (value : ν) :
    (c.insert key value now).2.Tidy now := by
  obtain ⟨first, hentries, hfront⟩ := c.entries_insert key value now
  have hsublist : first.Sublist c.entries := hfront.sublist.trans List.filter_sublist
  refine ⟨?_, ?_⟩
  · rw [hentries, List.map_cons]
    refine List.nodup_cons.2 ⟨fun hmem => ?_, h.nodup.sublist (hsublist.map CacheEntry.key)⟩
    exact c.notMem_keys_without key ((hfront.sublist.map CacheEntry.key).mem hmem)
  · intro e he
    rcases mem_of_mem_insert he with rfl | hold
    · exact Nat.le_refl now
    · exact h.past e hold

theorem expired_insert
    (c : Cache κ ν)
    (key : κ)
    (value : ν)
    (now : Nat) :
    (c.insert key value now).2.expired = c.expired := by
  have hinserts := c.inserts key value now
  generalize c.insert key value now = result at hinserts ⊢
  cases hinserts <;> rfl

theorem mem_of_mem_insert_of_member
    {key : κ}
    {value : ν}
    {d : CacheEntry κ ν}
    (hkey : ¬ member key)
    (hmember : member d.key)
    (hd : d ∈ (c.insert key value now).2.entries) :
    d ∈ c.entries := by
  rcases mem_of_mem_insert hd with rfl | hold
  · exact absurd hmember hkey
  · exact hold

/-- An insertion under a key that is neither a member nor the owner leaves the members covered. -/
theorem Covered.insert
    (h : Covered owner member covers c now)
    (htidy : c.Tidy now)
    {key : κ}
    (hkey : ¬ member key)
    (hne : owner ≠ key)
    (value : ν) :
    Covered owner member covers (c.insert key value now).2 now := by
  intro d hd hmember hlive
  rw [expired_insert] at hlive
  obtain ⟨r, hpair, howner, hcovers, hle⟩ :=
    h d (mem_of_mem_insert_of_member hkey hmember hd) hmember hlive
  refine ⟨r, ?_, howner, hcovers, hle⟩
  obtain ⟨first, hentries, hfront⟩ := c.entries_insert key value now
  have hdkey : d.key ≠ key := fun heq => hkey (heq ▸ hmember)
  rw [hentries] at hd ⊢
  have hfirst : d ∈ first := (List.mem_cons.1 hd).resolve_left fun heq => hdkey (heq ▸ rfl)
  have hwithout := pair_sublist_without hpair (howner ▸ hne) hdkey
  refine (pair_sublist_of_front ?_ hwithout hfront hfirst).cons _
  exact htidy.nodup.sublist (List.filter_sublist.map CacheEntry.key)

/-- Without live members, an insertion under a key that is not a member leaves none. -/
theorem Covered.insert_of_expired
    (h : ∀ d ∈ c.entries, member d.key → c.expired now d = true)
    {key : κ}
    (hkey : ¬ member key)
    (value : ν) :
    Covered owner member covers (c.insert key value now).2 now := by
  intro d hd hmember hlive
  rw [expired_insert, h d (mem_of_mem_insert_of_member hkey hmember hd) hmember] at hlive
  cases hlive

theorem Covered.insert_owner
    (htidy : c.Tidy now)
    (howner : ¬ member owner)
    {value : ν}
    (hcovers : covers value) :
    Covered owner member covers (c.insert owner value now).2 now := by
  intro d hd hmember _
  obtain ⟨first, hentries, hfront⟩ := c.entries_insert owner value now
  have hpast := htidy.past d (mem_of_mem_insert_of_member howner hmember hd)
  refine ⟨⟨owner, value, now⟩, ?_, rfl, hcovers, hpast⟩
  rw [hentries] at hd ⊢
  rcases List.mem_cons.1 hd with rfl | hfirst
  · exact absurd hmember howner
  · exact (List.singleton_sublist.2 hfirst).cons_cons _

theorem Covered.expired_of_entryAt?_eq_none
    (h : Covered owner member covers c now)
    (hnone : c.entryAt? owner = none) :
    ∀ d ∈ c.entries, member d.key → c.expired now d = true := by
  intro d hd hmember
  cases hlive : c.expired now d with
  | true =>
      rfl
  | false =>
      obtain ⟨r, hpair, howner, -⟩ := h d hd hmember hlive
      have hne := List.find?_eq_none.1 hnone r (hpair.mem List.mem_cons_self)
      simp [howner] at hne

/-- Unless the owner is found with a value that covers, no member is found. -/
theorem Covered.get_eq_none
    (h : Covered owner member covers c now)
    (htidy : c.Tidy now)
    (hcovers : ∀ value, (c.get owner now).1 = some value → ¬ covers value)
    {key : κ}
    (hkey : member key) :
    (c.get key now).1 = none := by
  cases hget : (c.get key now).1 with
  | none =>
      rfl
  | some value =>
      rw [get_fst, Option.map_eq_some_iff] at hget
      obtain ⟨d, hfilter, -⟩ := hget
      obtain ⟨hentry, hlive⟩ := Option.filter_eq_some_iff.1 hfilter
      obtain ⟨hd, hdkey⟩ := mem_of_entryAt? hentry
      have hlive : c.expired now d = false := by simpa using hlive
      obtain ⟨r, hpair, howner, hr, hle⟩ := h d hd (hdkey ▸ hkey) hlive
      have hfound := htidy.get_fst_of_live (hpair.mem List.mem_cons_self)
        (live_of_insertedAt_le hle hlive)
      rw [howner] at hfound
      exact absurd hr (hcovers r.value hfound)

end Cache
end DocumentStore
