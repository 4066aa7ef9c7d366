import DocumentStore.Proofs.Cache.Cover

/-!
# A part of a shared table

Some keys of a table may be served by a table of their own.  As long as the
shared table displaces no live entry, every lookup of such a key goes alike in
both.  Expired entries may be there in one table and not in the other, as a
full table lets the entry go that was used least recently if it has expired; so
the entries of the part are the same in both only up to expired ones at the end.

That suffices.  If the own table is full and its last entry is live, then it has
no expired ones at the end and the shared table has no other entries: it would
displace the same entry.
-/

namespace DocumentStore

universe u v

/-- Two lists are the same but for spent items at their ends. -/
def SameButSpent
    {α : Type u}
    (spent : α → Bool)
    (xs ys : List α) :
    Prop :=
  ∃ front gone gone', xs = front ++ gone ∧ ys = front ++ gone' ∧
    (∀ a ∈ gone, spent a = true) ∧ ∀ a ∈ gone', spent a = true

namespace SameButSpent

variable {α : Type u} {spent : α → Bool} {xs ys : List α}

theorem refl (xs : List α) :
    SameButSpent spent xs xs :=
  ⟨xs, [], [], by simp⟩

theorem symm (h : SameButSpent spent xs ys) :
    SameButSpent spent ys xs := by
  obtain ⟨front, gone, gone', hxs, hys, hgone, hgone'⟩ := h
  exact ⟨front, gone', gone, hys, hxs, hgone', hgone⟩

theorem imp
    {spent' : α → Bool}
    (h : SameButSpent spent xs ys)
    (himp : ∀ a, spent a = true → spent' a = true) :
    SameButSpent spent' xs ys := by
  obtain ⟨front, gone, gone', hxs, hys, hgone, hgone'⟩ := h
  exact ⟨front, gone, gone', hxs, hys, fun a ha => himp a (hgone a ha),
    fun a ha => himp a (hgone' a ha)⟩

theorem cons
    (h : SameButSpent spent xs ys)
    (a : α) :
    SameButSpent spent (a :: xs) (a :: ys) := by
  obtain ⟨front, gone, gone', rfl, rfl, hgone, hgone'⟩ := h
  exact ⟨a :: front, gone, gone', rfl, rfl, hgone, hgone'⟩

theorem filter
    (h : SameButSpent spent xs ys)
    (keep : α → Bool) :
    SameButSpent spent (xs.filter keep) (ys.filter keep) := by
  obtain ⟨front, gone, gone', rfl, rfl, hgone, hgone'⟩ := h
  refine ⟨front.filter keep, gone.filter keep, gone'.filter keep, List.filter_append ..,
    List.filter_append .., fun a ha => hgone a (List.mem_filter.1 ha).1,
    fun a ha => hgone' a (List.mem_filter.1 ha).1⟩

theorem mem_of_mem
    (h : SameButSpent spent xs ys)
    {a : α}
    (ha : a ∈ ys)
    (hlive : spent a = false) :
    a ∈ xs := by
  obtain ⟨front, gone, gone', rfl, rfl, -, hgone'⟩ := h
  rcases List.mem_append.1 ha with hfront | hspent
  · exact List.mem_append_left _ hfront
  · rw [hgone' a hspent] at hlive
    cases hlive

/-- Spent items at the end may be dropped. -/
theorem dropped
    {rest : List α}
    (h : SameButSpent spent (xs ++ rest) ys)
    (hrest : ∀ a ∈ rest, spent a = true) :
    SameButSpent spent xs ys := by
  obtain ⟨front, gone, gone', heq, rfl, hgone, hgone'⟩ := h
  rcases List.append_eq_append_iff.1 heq with ⟨more, rfl, rfl⟩ | ⟨more, rfl, rfl⟩
  · refine ⟨xs, [], more ++ gone', by simp, by simp, by simp, fun a ha => ?_⟩
    rcases List.mem_append.1 ha with hmore | ha
    · exact hrest a (List.mem_append_left _ hmore)
    · exact hgone' a ha
  · exact ⟨front, more, gone', rfl, rfl, fun a ha => hgone a (List.mem_append_left _ ha), hgone'⟩

theorem isPrefix_of_getLast
    (h : SameButSpent spent xs ys)
    {a : α}
    (hlast : ys.getLast? = some a)
    (hlive : spent a = false) :
    ys <+: xs := by
  obtain ⟨front, gone, gone', rfl, rfl, -, hgone'⟩ := h
  rcases List.eq_nil_or_concat gone' with rfl | ⟨init, last, rfl⟩
  · simp
  · rw [List.concat_eq_append, ← List.append_assoc, List.getLast?_concat] at hlast
    obtain rfl := Option.some.inj hlast
    rw [hgone' last (by simp)] at hlive
    cases hlive

end SameButSpent

namespace Cache

variable {κ : Type u} {ν : Type v}

/-- A table has room for an entry at least, and no more entries than room. -/
structure Bounded (c : Cache κ ν) : Prop where
  room : 0 < c.capacity
  size : c.entries.length ≤ c.capacity

/-- A table holds what another one holds under the keys of a part. -/
structure Part
    (part : κ → Bool)
    (now : Nat)
    (c own : Cache κ ν) :
    Prop where
  capacity : own.capacity = c.capacity
  lifetime : own.lifetime = c.lifetime
  tidy : c.Tidy now
  tidy_own : own.Tidy now
  bounded : c.Bounded
  same : SameButSpent (c.expired now) (c.entries.filter fun e => part e.key) own.entries

variable {part : κ → Bool} {c own : Cache κ ν} {now now' : Nat}

theorem Part.new
    (part : κ → Bool)
    (capacity lifetime now : Nat) :
    Part part now (Cache.new capacity lifetime : Cache κ ν) (Cache.new capacity lifetime) where
  capacity := rfl
  lifetime := rfl
  tidy := ⟨.nil, fun _ he => absurd he List.not_mem_nil⟩
  tidy_own := ⟨.nil, fun _ he => absurd he List.not_mem_nil⟩
  bounded := ⟨Nat.lt_of_lt_of_le Nat.one_pos (Nat.le_max_left ..), Nat.zero_le _⟩
  same := .refl _

/-- Time goes on. -/
theorem Part.later
    (h : Part part now c own)
    (hle : now ≤ now') :
    Part part now' c own where
  capacity := h.capacity
  lifetime := h.lifetime
  tidy := h.tidy.later hle
  tidy_own := h.tidy_own.later hle
  bounded := h.bounded
  same := by
    refine h.same.imp fun e he => ?_
    cases hlive : c.expired now' e with
    | true =>
        rfl
    | false =>
        rw [expired_mono hle hlive] at he
        cases he

theorem Part.expired_eq (h : Part part now c own) :
    own.expired = c.expired := by
  unfold expired
  rw [h.lifetime]

/-- The expired entries are dropped in both. -/
theorem Part.sweep (h : Part part now c own) :
    Part part now (c.sweep now).2 (own.sweep now).2 where
  capacity := h.capacity
  lifetime := h.lifetime
  tidy := h.tidy.sweep
  tidy_own := h.tidy_own.sweep
  bounded := ⟨h.bounded.room, Nat.le_trans (List.length_filter_le ..) h.bounded.size⟩
  same := by
    have hswept := h.same.filter fun e => !c.expired now e
    have hown : (own.sweep now).2.entries = own.entries.filter fun e => !c.expired now e := by
      rw [← h.expired_eq]
      rfl
    rw [hown]
    rw [List.filter_comm] at hswept
    exact hswept

variable [DecidableEq κ]

/-- The entries of a part under other keys than one. -/
theorem Part.same_without
    (h : Part part now c own)
    (key : κ) :
    SameButSpent (c.expired now) ((c.without key).filter fun e => part e.key)
      (own.without key) := by
  have hkept := h.same.filter fun e => e.key ≠ key
  rw [List.filter_comm] at hkept
  exact hkept

/-- An entry under another key than those of a part is no entry of the part. -/
theorem filter_without_of_not_part
    {key : κ}
    (hkey : part key = false) :
    ((c.without key).filter fun e => part e.key) = c.entries.filter fun e => part e.key := by
  unfold without
  rw [List.filter_filter]
  refine List.filter_congr fun e _ => ?_
  by_cases heq : e.key = key
  · simp [heq, hkey]
  · simp [heq]

/-! ### Lookups in a part -/

/-- A lookup changes neither the room nor the lifetime of entries. -/
theorem capacity_get
    (c : Cache κ ν)
    (key : κ)
    (now : Nat) :
    (c.get key now).2.capacity = c.capacity ∧ (c.get key now).2.lifetime = c.lifetime := by
  have hgets := c.gets key now
  generalize c.get key now = result at hgets ⊢
  cases hgets <;> exact ⟨rfl, rfl⟩

/-- A lookup displaces nothing. -/
theorem evictions_get
    (c : Cache κ ν)
    (key : κ)
    (now : Nat) :
    (c.get key now).2.stats.evictions = c.stats.evictions := by
  have hgets := c.gets key now
  generalize c.get key now = result at hgets ⊢
  cases hgets <;> rfl

theorem Bounded.get
    (h : c.Bounded)
    (key : κ)
    (now : Nat) :
    (c.get key now).2.Bounded := by
  have hroom := (c.capacity_get key now).1
  refine ⟨hroom ▸ h.room, hroom ▸ Nat.le_trans ?_ h.size⟩
  cases hget : (c.get key now).1 with
  | none =>
      rw [entries_get_of_eq_none hget]
      exact List.length_filter_le ..
  | some value =>
      obtain ⟨e, he, hkey, -, -, hentries⟩ := entries_get_of_eq_some hget
      rw [hentries, List.length_cons]
      exact List.length_filter_lt_length_iff_exists.2 ⟨e, he, by simpa using hkey⟩

/-- A lookup in the part finds what a lookup in the shared table finds. -/
theorem Part.get_fst
    (h : Part part now c own)
    {key : κ}
    (hkey : part key = true) :
    (own.get key now).1 = (c.get key now).1 := by
  cases hget : (c.get key now).1 with
  | some value =>
      obtain ⟨e, he, rfl, rfl, hlive, -⟩ := entries_get_of_eq_some hget
      have hmem : e ∈ own.entries :=
        h.same.symm.mem_of_mem (List.mem_filter.2 ⟨he, hkey⟩) hlive
      exact h.tidy_own.get_fst_of_live hmem (h.expired_eq ▸ hlive)
  | none =>
      cases hown : (own.get key now).1 with
      | none =>
          rfl
      | some value =>
          obtain ⟨e, he, rfl, rfl, hlive, -⟩ := entries_get_of_eq_some hown
          rw [h.expired_eq] at hlive
          have hmem : e ∈ c.entries := (List.mem_filter.1 (h.same.mem_of_mem he hlive)).1
          rw [h.tidy.get_fst_of_live hmem hlive] at hget
          cases hget

/-- The part stays a part when a key of it is looked up in both tables. -/
theorem Part.get
    (h : Part part now c own)
    {key : κ}
    (hkey : part key = true) :
    Part part now (c.get key now).2 (own.get key now).2 where
  capacity := by
    rw [(capacity_get ..).1, (capacity_get ..).1, h.capacity]
  lifetime := by
    rw [(capacity_get ..).2, (capacity_get ..).2, h.lifetime]
  tidy := h.tidy.get key
  tidy_own := h.tidy_own.get key
  bounded := h.bounded.get key now
  same := by
    have hfound := h.get_fst hkey
    rw [expired_get]
    cases hget : (c.get key now).1 with
    | none =>
        rw [entries_get_of_eq_none hget, entries_get_of_eq_none (hfound.trans hget)]
        exact h.same_without key
    | some value =>
        obtain ⟨e, he, hekey, -, hlive, hentries⟩ := entries_get_of_eq_some hget
        obtain ⟨e', he', hekey', -, hlive', hentries'⟩ :=
          entries_get_of_eq_some (hfound.trans hget)
        -- both found the one entry that the shared table has under the key
        have hmem : e' ∈ c.entries :=
          (List.mem_filter.1 (h.same.mem_of_mem he' (h.expired_eq ▸ hlive'))).1
        obtain rfl := h.tidy.eq_of_key_eq he hmem (hekey.trans hekey'.symm)
        rw [hentries, hentries', List.filter_cons_of_pos (by rw [hekey]; exact hkey)]
        exact (h.same_without key).cons e

/-- A lookup of another key in the shared table leaves the part as it is. -/
theorem Part.get_other
    (h : Part part now c own)
    {key : κ}
    (hkey : part key = false) :
    Part part now (c.get key now).2 own where
  capacity := by
    rw [(capacity_get ..).1, h.capacity]
  lifetime := by
    rw [(capacity_get ..).2, h.lifetime]
  tidy := h.tidy.get key
  tidy_own := h.tidy_own
  bounded := h.bounded.get key now
  same := by
    have hsame := h.same
    rw [← filter_without_of_not_part hkey] at hsame
    rw [expired_get]
    cases hget : (c.get key now).1 with
    | none =>
        rw [entries_get_of_eq_none hget]
        exact hsame
    | some value =>
        obtain ⟨e, -, hekey, -, -, hentries⟩ := entries_get_of_eq_some hget
        rw [hentries, List.filter_cons_of_neg (by rw [hekey, hkey]; exact Bool.false_ne_true)]
        exact hsame

/-! ### Insertions into a part -/

/-- Inserting a key displaces a live entry. -/
structure Displaces
    (c : Cache κ ν)
    (key : κ)
    (now : Nat) :
    Prop where
  unknown : c.entryAt? key = none
  full : c.capacity ≤ c.entries.length
  live : ∃ old, c.entries.getLast? = some old ∧ c.expired now old = false

theorem Displaces.evictions_insert
    {key : κ}
    (h : c.Displaces key now)
    (value : ν) :
    (c.insert key value now).2.stats.evictions = c.stats.evictions + 1 := by
  obtain ⟨hunknown, hfull, old, hlast, hlive⟩ := h
  simp [insert, hunknown, Nat.not_lt.2 hfull, hlast, hlive]

theorem not_displaces_of_evictions_eq
    {key : κ}
    {value : ν}
    (h : (c.insert key value now).2.stats.evictions = c.stats.evictions) :
    ¬ c.Displaces key now := by
  intro hdisplaces
  have hcounted := hdisplaces.evictions_insert value
  omega

theorem evictions_le_insert
    (c : Cache κ ν)
    (key : κ)
    (value : ν)
    (now : Nat) :
    c.stats.evictions ≤ (c.insert key value now).2.stats.evictions := by
  have hinserts := c.inserts key value now
  generalize c.insert key value now = result at hinserts ⊢
  cases hinserts <;> dsimp only <;> omega

/-- An insertion that displaces nothing lets only expired entries go, and those from the end. -/
theorem entries_insert_of_not_displaces
    {key : κ}
    (h : ¬ c.Displaces key now)
    (value : ν) :
    ∃ first gone, (c.insert key value now).2.entries = ⟨key, value, now⟩ :: first ∧
      c.without key = first ++ gone ∧ ∀ e ∈ gone, c.expired now e = true := by
  have hinserts := c.inserts key value now
  generalize c.insert key value now = result at hinserts ⊢
  cases hinserts with
  | replaced hentry =>
      exact ⟨c.without key, [], rfl, by simp, by simp⟩
  | added hentry hroom =>
      rw [without_of_entryAt?_eq_none hentry]
      exact ⟨c.entries, [], rfl, by simp, by simp⟩
  | alone hentry hfull hempty =>
      rw [without_of_entryAt?_eq_none hentry, hempty]
      exact ⟨[], [], rfl, rfl, by simp⟩
  | @expired init last hentry hfull hlast hexpired =>
      rw [without_of_entryAt?_eq_none hentry]
      exact ⟨init, [last], rfl, hlast, by simpa using hexpired⟩
  | @evicted init last hentry hfull hlast hlive =>
      have hback : c.entries.getLast? = some last := by
        rw [hlast, List.getLast?_concat]
      exact absurd ⟨hentry, hfull, last, hback, hlive⟩ h

theorem capacity_insert
    (c : Cache κ ν)
    (key : κ)
    (value : ν)
    (now : Nat) :
    (c.insert key value now).2.capacity = c.capacity ∧
      (c.insert key value now).2.lifetime = c.lifetime := by
  have hinserts := c.inserts key value now
  generalize c.insert key value now = result at hinserts ⊢
  cases hinserts <;> exact ⟨rfl, rfl⟩

theorem Bounded.insert
    (h : c.Bounded)
    (key : κ)
    (value : ν)
    (now : Nat) :
    (c.insert key value now).2.Bounded := by
  have hroom := (c.capacity_insert key value now).1
  refine ⟨hroom ▸ h.room, hroom ▸ ?_⟩
  have hsize := h.size
  have hinserts := c.inserts key value now
  generalize c.insert key value now = result at hinserts ⊢
  cases hinserts with
  | @replaced e hentry =>
      obtain ⟨he, hkey⟩ := mem_of_entryAt? hentry
      refine Nat.le_trans ?_ hsize
      exact List.length_filter_lt_length_iff_exists.2 ⟨e, he, by simpa using hkey⟩
  | added hentry hroom =>
      exact hroom
  | alone hentry hfull hempty =>
      exact h.room
  | expired hentry hfull hlast =>
      rw [hlast, List.length_append] at hsize
      exact hsize
  | evicted hentry hfull hlast =>
      rw [hlast, List.length_append] at hsize
      exact hsize

/-- Where the part would displace a live entry, the shared table would displace it too. -/
theorem Part.displaces
    (h : Part part now c own)
    {key : κ}
    (hdisplaces : own.Displaces key now) :
    c.Displaces key now := by
  obtain ⟨hunknown, hfull, old, hlast, hlive⟩ := hdisplaces
  rw [h.expired_eq] at hlive
  have hfirst := h.same.isPrefix_of_getLast hlast hlive
  have hpart : (c.entries.filter fun e => part e.key).length ≤ c.entries.length :=
    List.length_filter_le ..
  have hsize := h.bounded.size
  have hle := hfirst.length_le
  rw [h.capacity] at hfull
  -- the part takes up all the room, so that there are no other entries
  have hall : (c.entries.filter fun e => part e.key) = c.entries :=
    List.filter_sublist.eq_of_length (by omega)
  have hentries : own.entries = c.entries := by
    rw [← hall]
    exact hfirst.eq_of_length (by omega)
  refine ⟨?_, hentries ▸ hfull, old, hentries ▸ hlast, hlive⟩
  unfold entryAt? at hunknown ⊢
  rwa [hentries] at hunknown

/-- The part stays a part when a key of it is inserted in both tables and none is displaced. -/
theorem Part.insert
    (h : Part part now c own)
    {key : κ}
    (hkey : part key = true)
    {value : ν}
    (hkept : (c.insert key value now).2.stats.evictions = c.stats.evictions) :
    Part part now (c.insert key value now).2 (own.insert key value now).2 where
  capacity := by
    rw [(capacity_insert ..).1, (capacity_insert ..).1, h.capacity]
  lifetime := by
    rw [(capacity_insert ..).2, (capacity_insert ..).2, h.lifetime]
  tidy := h.tidy.insert key value
  tidy_own := h.tidy_own.insert key value
  bounded := h.bounded.insert key value now
  same := by
    have hnot := not_displaces_of_evictions_eq hkept
    obtain ⟨first, gone, hentries, hwithout, hgone⟩ := entries_insert_of_not_displaces hnot value
    obtain ⟨first', gone', hentries', hwithout', hgone'⟩ :=
      entries_insert_of_not_displaces (fun hown => hnot (h.displaces hown)) value
    have hsame := h.same_without key
    rw [hwithout, hwithout', List.filter_append] at hsame
    rw [h.expired_eq] at hgone'
    have hdropped := (hsame.dropped fun e he => hgone e (List.mem_filter.1 he).1).symm.dropped hgone'
    rw [expired_insert, hentries, hentries', List.filter_cons_of_pos (by exact hkey)]
    exact hdropped.symm.cons _

/-- An insertion of another key in the shared table that displaces none leaves the part. -/
theorem Part.insert_other
    (h : Part part now c own)
    {key : κ}
    (hkey : part key = false)
    {value : ν}
    (hkept : (c.insert key value now).2.stats.evictions = c.stats.evictions) :
    Part part now (c.insert key value now).2 own where
  capacity := by
    rw [(capacity_insert ..).1, h.capacity]
  lifetime := by
    rw [(capacity_insert ..).2, h.lifetime]
  tidy := h.tidy.insert key value
  tidy_own := h.tidy_own
  bounded := h.bounded.insert key value now
  same := by
    have hnot := not_displaces_of_evictions_eq hkept
    obtain ⟨first, gone, hentries, hwithout, hgone⟩ := entries_insert_of_not_displaces hnot value
    have hsame := h.same
    rw [← filter_without_of_not_part hkey, hwithout, List.filter_append] at hsame
    rw [expired_insert, hentries,
      List.filter_cons_of_neg (by rw [hkey]; exact Bool.false_ne_true)]
    exact hsame.dropped fun e he => hgone e (List.mem_filter.1 he).1

end Cache
end DocumentStore
