import DocumentStore.Proofs.Cache.Part
import Mathlib.Data.List.Induction

/-!
# Runs of an expiring table

A run is a list of calls, each at a time of its own; times may go back.  What
one call does is said first: which entry a key has after it, how the entries are
ordered by their last use, and how many come and go.  What a run has done follows
by induction on its calls, from the front for the fate of one entry and from the
end for what the whole history has left.
-/

namespace DocumentStore

universe u v

/-- A call on a table. -/
inductive CacheCall (κ : Type u) (ν : Type v) where
  | get (key : κ) (now : Nat)
  | insert (key : κ) (value : ν) (now : Nat)
  | sweep (now : Nat)
  | clear

namespace CacheCall

variable {κ : Type u} {ν : Type v}

/-- Whether a call is a lookup. -/
def isGet : CacheCall κ ν → Bool
  | get .. => true
  | _ => false

/-- The call neither inserts a key nor clears the table. -/
def Leaves (key : κ) : CacheCall κ ν → Prop
  | insert other _ _ => other ≠ key
  | clear => False
  | _ => True

/-- A call leaves a key, inserts it, or clears the table. -/
theorem leaves_or
    (key : κ)
    (call : CacheCall κ ν) :
    call.Leaves key ∨ (∃ value now, call = insert key value now) ∨ call = clear := by
  cases call with
  | get other now => exact .inl trivial
  | sweep now => exact .inl trivial
  | clear => exact .inr (.inr rfl)
  | insert other value now =>
      by_cases h : other = key
      · exact .inr (.inl ⟨value, now, by rw [h]⟩)
      · exact .inl h

end CacheCall

/-- After its last use a key was not used again while another one was. -/
def UsedSince
    {κ : Type u}
    (uses : List κ)
    (older newer : κ) :
    Prop :=
  ∃ before after, uses = before ++ older :: after ∧ older ∉ after ∧ newer ∈ after

namespace UsedSince

variable {κ : Type u} {uses : List κ} {older newer : κ}

theorem of_mem
    (h : older ∈ uses)
    (hne : older ≠ newer) :
    UsedSince (uses ++ [newer]) older newer := by
  obtain ⟨later, earlier, hsplit, hlast⟩ :=
    List.eq_append_cons_of_mem (List.mem_reverse.2 h)
  have huses : uses = earlier.reverse ++ older :: later.reverse := by
    rw [← List.reverse_reverse uses, hsplit, List.reverse_append, List.reverse_cons,
      List.append_assoc, List.singleton_append]
  refine ⟨earlier.reverse, later.reverse ++ [newer], ?_, ?_, ?_⟩
  · rw [huses, List.append_assoc, List.cons_append]
  · simpa [hne] using hlast
  · exact List.mem_append_right _ List.mem_cons_self

/-- The uses of other keys do not change which of two was used later. -/
theorem append
    (h : UsedSince uses older newer)
    {key : κ}
    (hne : older ≠ key) :
    UsedSince (uses ++ [key]) older newer := by
  obtain ⟨before, after, rfl, hlast, hnewer⟩ := h
  refine ⟨before, after ++ [key], ?_, ?_, List.mem_append_left _ hnewer⟩
  · rw [List.append_assoc, List.cons_append]
  · simpa [hne] using hlast

/-- Of two keys one was used last. -/
theorem asymm
    (h : UsedSince uses older newer) :
    ¬ UsedSince uses newer older := by
  rintro ⟨before', after', huses', hlast', holder⟩
  obtain ⟨before, after, huses, hlast, hnewer⟩ := h
  rcases List.append_eq_append_iff.1 (huses.symm.trans huses') with
    ⟨between, -, hafter⟩ | ⟨between, -, hafter⟩
  · cases between with
    | nil =>
        obtain ⟨-, rfl⟩ := List.cons.inj hafter
        exact hlast holder
    | cons first between =>
        obtain ⟨-, rfl⟩ := List.cons.inj hafter
        exact hlast (List.mem_append_right _ (List.mem_cons_of_mem _ holder))
  · cases between with
    | nil =>
        obtain ⟨-, rfl⟩ := List.cons.inj hafter
        exact hlast' hnewer
    | cons first between =>
        obtain ⟨-, rfl⟩ := List.cons.inj hafter
        exact hlast' (List.mem_append_right _ (List.mem_cons_of_mem _ hnewer))

end UsedSince

namespace Cache

variable {κ : Type u} {ν : Type v} {c : Cache κ ν}

/-- A table that is no larger than its room, with one entry for a key at most. -/
structure Proper (c : Cache κ ν) : Prop where
  bounded : c.Bounded
  nodup : (c.entries.map CacheEntry.key).Nodup

theorem Proper.new (capacity lifetime : Nat) :
    (Cache.new capacity lifetime : Cache κ ν).Proper where
  bounded := ⟨Nat.lt_of_lt_of_le Nat.one_pos (Nat.le_max_left ..), Nat.zero_le _⟩
  nodup := List.nodup_nil

variable [DecidableEq κ]

/-! ### Calls -/

/-- The table after a call. -/
def after (c : Cache κ ν) : CacheCall κ ν → Cache κ ν
  | .get key now => (c.get key now).2
  | .insert key value now => (c.insert key value now).2
  | .sweep now => (c.sweep now).2
  | .clear => c.clear

/-- The key that a call uses: one that is inserted, or that is looked up and found. -/
def used? (c : Cache κ ν) : CacheCall κ ν → Option κ
  | .get key now => if (c.get key now).1.isSome then some key else none
  | .insert key _ _ => some key
  | .sweep _ | .clear => none

/-- Whether a call inserts a key that is not in the table. -/
def admits (c : Cache κ ν) : CacheCall κ ν → Bool
  | .insert key _ _ => (c.entryAt? key).isNone
  | _ => false

/-- The number of entries that a call drops by clearing the table. -/
def clearedBy (c : Cache κ ν) : CacheCall κ ν → Nat
  | .clear => c.size
  | _ => 0

/-- An insertion makes another key lose its entry. -/
def PushesOut
    (c : Cache κ ν)
    (key : κ)
    (value : ν)
    (now : Nat)
    (old : κ) :
    Prop :=
  (c.entryAt? old).isSome = true ∧ (c.insert key value now).2.entryAt? old = none

/--
A call makes a key lose the entry it has since some time: a lookup of the key or a
sweep finds it expired, or an insertion pushes it out.
-/
def Loses
    (c : Cache κ ν)
    (key : κ)
    (since : Nat) :
    CacheCall κ ν → Prop
  | .get other now => other = key ∧ c.lifetime ≤ now - since
  | .insert other value now => c.PushesOut other value now key
  | .sweep now => c.lifetime ≤ now - since
  | .clear => False

/-- What an insertion does to a table that has room for an entry. -/
inductive Inserted
    (c : Cache κ ν)
    (key : κ)
    (value : ν)
    (now : Nat) :
    Option κ × Cache κ ν → Prop
  | replaced
      {e : CacheEntry κ ν}
      (hentry : c.entryAt? key = some e) :
      Inserted c key value now
        (none, { c with entries := ⟨key, value, now⟩ :: c.without key })
  | added
      (hentry : c.entryAt? key = none)
      (hroom : c.size < c.capacity) :
      Inserted c key value now
        (none, { c with entries := ⟨key, value, now⟩ :: c.entries })
  | expired
      {init : List (CacheEntry κ ν)}
      {last : CacheEntry κ ν}
      (hentry : c.entryAt? key = none)
      (hfull : c.size = c.capacity)
      (hlast : c.entries = init ++ [last])
      (hexpired : c.expired now last = true) :
      Inserted c key value now
        (none,
          { c with
            entries := ⟨key, value, now⟩ :: init
            stats := { c.stats with expirations := c.stats.expirations + 1 } })
  | evicted
      {init : List (CacheEntry κ ν)}
      {last : CacheEntry κ ν}
      (hentry : c.entryAt? key = none)
      (hfull : c.size = c.capacity)
      (hlast : c.entries = init ++ [last])
      (hlive : c.expired now last = false) :
      Inserted c key value now
        (some last.key,
          { c with
            entries := ⟨key, value, now⟩ :: init
            stats := { c.stats with evictions := c.stats.evictions + 1 } })

theorem Bounded.inserted
    (h : c.Bounded)
    (key : κ)
    (value : ν)
    (now : Nat) :
    Inserted c key value now (c.insert key value now) := by
  have hinserts := c.inserts key value now
  generalize c.insert key value now = result at hinserts ⊢
  cases hinserts with
  | replaced hentry =>
      exact .replaced hentry
  | added hentry hroom =>
      exact .added hentry hroom
  | alone hentry hfull hempty =>
      have hroom := h.room
      rw [Cache.size, hempty, List.length_nil] at hfull
      omega
  | expired hentry hfull hlast hexpired =>
      exact .expired hentry (Nat.le_antisymm h.size hfull) hlast hexpired
  | evicted hentry hfull hlast hlive =>
      exact .evicted hentry (Nat.le_antisymm h.size hfull) hlast hlive

/-! ### The entry of a key -/

theorem Proper.entryAt?_eq_some_iff
    (h : c.Proper)
    {key : κ}
    {e : CacheEntry κ ν} :
    c.entryAt? key = some e ↔ e ∈ c.entries ∧ e.key = key := by
  refine ⟨mem_of_entryAt?, fun ⟨hmem, hkey⟩ => ?_⟩
  cases hfound : c.entryAt? key with
  | none =>
      have hne := List.find?_eq_none.1 hfound e hmem
      simp [hkey] at hne
  | some found =>
      obtain ⟨hmem', hkey'⟩ := mem_of_entryAt? hfound
      rw [List.inj_on_of_nodup_map h.nodup hmem hmem' (hkey.trans hkey'.symm)]

/-- The other entries are one less. -/
theorem Proper.length_without
    (h : c.Proper)
    {key : κ}
    {e : CacheEntry κ ν}
    (hentry : c.entryAt? key = some e) :
    (c.without key).length + 1 = c.entries.length := by
  obtain ⟨hmem, rfl⟩ := mem_of_entryAt? hentry
  obtain ⟨before, after, hsplit⟩ := List.append_of_mem hmem
  have hnodup := h.nodup
  rw [hsplit, List.map_append, List.map_cons, List.nodup_middle, List.nodup_cons,
    ← List.map_append] at hnodup
  have hothers : (before ++ after).filter (fun d => d.key ≠ e.key) = before ++ after :=
    List.filter_eq_self.2 fun d hd => by
      have hne : d.key ≠ e.key := fun heq => hnodup.1 (heq ▸ List.mem_map_of_mem hd)
      simpa using hne
  have hlength := congrArg List.length hothers
  rw [List.filter_append, List.length_append, List.length_append] at hlength
  rw [without, hsplit, List.filter_append, List.filter_cons_of_neg (by simp),
    List.length_append, List.length_append, List.length_cons]
  omega

/-- An entry that no call has made its key lose is still there. -/
theorem entryAt?_after_of_not_loses
    {key : κ}
    {e : CacheEntry κ ν}
    {call : CacheCall κ ν}
    (hentry : c.entryAt? key = some e)
    (hleaves : call.Leaves key)
    (hloses : ¬ c.Loses key e.insertedAt call) :
    (c.after call).entryAt? key = some e := by
  cases call with
  | get other now =>
      by_cases heq : other = key
      · subst heq
        have hlive : c.expired now e = false :=
          decide_eq_false fun hexpired => hloses ⟨rfl, hexpired⟩
        have hfound : (c.get other now).1 = some e.value := by
          rw [get_fst, hentry]
          simp [hlive]
        exact (entryAt?_get_of_eq_some hfound).trans hentry
      · exact (c.entryAt?_get_of_ne now (Ne.symm heq)).trans hentry
  | insert other value now =>
      have hheld : (c.entryAt? key).isSome = true := by rw [hentry]; rfl
      cases hafter : (c.insert other value now).2.entryAt? key with
      | none => exact absurd ⟨hheld, hafter⟩ hloses
      | some found =>
          rw [← hentry, entryAt?_of_entryAt?_insert (Ne.symm hleaves) hafter]
          exact hafter
  | sweep now =>
      exact entryAt?_sweep_of_live hentry (decide_eq_false hloses)
  | clear =>
      exact hleaves.elim

theorem Proper.entryAt?_of_after
    (h : c.Proper)
    {key : κ}
    {e : CacheEntry κ ν}
    {call : CacheCall κ ν}
    (hleaves : call.Leaves key)
    (hafter : (c.after call).entryAt? key = some e) :
    c.entryAt? key = some e := by
  cases call with
  | get other now =>
      exact entryAt?_of_entryAt?_get hafter
  | insert other value now =>
      exact entryAt?_of_entryAt?_insert (Ne.symm hleaves) hafter
  | sweep now =>
      obtain ⟨hmem, hkey⟩ := mem_of_entryAt? hafter
      exact h.entryAt?_eq_some_iff.2 ⟨mem_of_mem_sweep hmem, hkey⟩
  | clear =>
      exact hleaves.elim

/-- A key has no entry after a call that makes it lose the one it has. -/
theorem Proper.entryAt?_after_of_loses
    (h : c.Proper)
    {key : κ}
    {e : CacheEntry κ ν}
    {call : CacheCall κ ν}
    (hentry : c.entryAt? key = some e)
    (hloses : c.Loses key e.insertedAt call) :
    (c.after call).entryAt? key = none := by
  cases call with
  | get other now =>
      obtain ⟨rfl, hexpired⟩ := hloses
      refine entryAt?_get_of_eq_none ?_
      have hexpired : c.expired now e = true := decide_eq_true hexpired
      rw [get_fst, hentry]
      simp [hexpired]
  | insert other value now =>
      exact hloses.2
  | sweep now =>
      have hexpired : c.expired now e = true := decide_eq_true hloses
      refine List.find?_eq_none.2 fun d hd hkey => ?_
      obtain ⟨hmem, hlive⟩ := List.mem_filter.1 hd
      have hsame : c.entryAt? key = some d :=
        h.entryAt?_eq_some_iff.2 ⟨hmem, of_decide_eq_true hkey⟩
      obtain rfl := Option.some.inj (hentry.symm.trans hsame)
      rw [hexpired] at hlive
      cases hlive
  | clear =>
      exact hloses.elim

/-! ### The order of the entries -/

/-- A call puts the entry of the key it uses in front of those of others, and adds no other. -/
theorem entries_after
    (c : Cache κ ν)
    (call : CacheCall κ ν) :
    (c.used? call = none ∧ (c.after call).entries.Sublist c.entries) ∨
      ∃ e rest, c.used? call = some e.key ∧ (c.after call).entries = e :: rest ∧
        rest.Sublist (c.without e.key) := by
  cases call with
  | get key now =>
      cases hget : (c.get key now).1 with
      | none =>
          refine .inl ⟨by rw [used?, hget]; rfl, ?_⟩
          rw [after, entries_get_of_eq_none hget]
          exact List.filter_sublist
      | some value =>
          obtain ⟨e, -, rfl, -, -, hentries⟩ := entries_get_of_eq_some hget
          exact .inr ⟨e, _, by rw [used?, hget]; rfl, hentries, List.Sublist.refl _⟩
  | insert key value now =>
      obtain ⟨first, hentries, hfront⟩ := c.entries_insert key value now
      exact .inr ⟨⟨key, value, now⟩, first, rfl, hentries, hfront.sublist⟩
  | sweep now =>
      exact .inl ⟨rfl, List.filter_sublist⟩
  | clear =>
      exact .inl ⟨rfl, List.nil_sublist _⟩

theorem Proper.after
    (h : c.Proper)
    (call : CacheCall κ ν) :
    (c.after call).Proper where
  bounded := by
    cases call with
    | get key now => exact h.bounded.get key now
    | insert key value now => exact h.bounded.insert key value now
    | sweep now => exact ⟨h.bounded.room, Nat.le_trans (List.length_filter_le ..) h.bounded.size⟩
    | clear => exact ⟨h.bounded.room, Nat.zero_le _⟩
  nodup := by
    rcases c.entries_after call with ⟨-, hsublist⟩ | ⟨e, rest, -, hentries, hrest⟩
    · exact h.nodup.sublist (hsublist.map CacheEntry.key)
    · rw [hentries, List.map_cons]
      refine List.nodup_cons.2 ⟨fun hmem => ?_, ?_⟩
      · exact c.notMem_keys_without e.key ((hrest.map CacheEntry.key).mem hmem)
      · exact h.nodup.sublist ((hrest.trans List.filter_sublist).map CacheEntry.key)

/-- Every entry was used, and each one after the last use of those behind it. -/
structure ByUse
    (uses : List κ)
    (c : Cache κ ν) :
    Prop where
  used : ∀ e ∈ c.entries, e.key ∈ uses
  ordered : c.entries.Pairwise fun newer older => UsedSince uses older.key newer.key

theorem ByUse.after
    {uses : List κ}
    (h : c.ByUse uses)
    (call : CacheCall κ ν) :
    (c.after call).ByUse (uses ++ (c.used? call).toList) := by
  rcases c.entries_after call with ⟨hused, hsublist⟩ | ⟨e, rest, hused, hentries, hrest⟩
  · rw [hused, Option.toList_none, List.append_nil]
    exact ⟨fun d hd => h.used d (hsublist.mem hd), h.ordered.sublist hsublist⟩
  · have hold : rest.Sublist c.entries := hrest.trans List.filter_sublist
    have hne : ∀ d ∈ rest, d.key ≠ e.key := fun d hd => by
      simpa using (List.mem_filter.1 (hrest.mem hd)).2
    rw [hused, Option.toList_some]
    refine ⟨?_, ?_⟩
    · rw [hentries]
      intro d hd
      rcases List.mem_cons.1 hd with rfl | hd
      · exact List.mem_append_right _ List.mem_cons_self
      · exact List.mem_append_left _ (h.used d (hold.mem hd))
    · rw [hentries, List.pairwise_cons]
      refine ⟨fun d hd => .of_mem (h.used d (hold.mem hd)) (hne d hd), ?_⟩
      refine (List.Pairwise.sublist hold h.ordered).imp_of_mem ?_
      intro newer older _ holder hsince
      exact hsince.append (hne older holder)

/-! ### Entries that come and go -/

/-- What comes by a call is there afterwards or is dropped. -/
theorem Proper.balance_after
    (h : c.Proper)
    (call : CacheCall κ ν) :
    (c.admits call).toNat + c.size + c.dropped =
      (c.after call).size + (c.after call).dropped + c.clearedBy call := by
  unfold dropped size
  cases call <;> simp only [Cache.after, admits, clearedBy, Bool.toNat_false]
  case get key now =>
    have hgets := c.gets key now
    generalize c.get key now = result at hgets ⊢
    cases hgets with
    | missing hentry =>
        dsimp only
        omega
    | expired hentry hexpired =>
        have hlength := h.length_without hentry
        dsimp only
        omega
    | live hentry hlive =>
        have hlength := h.length_without hentry
        simp only [List.length_cons]
        omega
  case insert key value now =>
    have hinserted := h.bounded.inserted key value now
    generalize c.insert key value now = result at hinserted
    cases hinserted with
    | replaced hentry =>
        have hlength := h.length_without hentry
        simp only [hentry, List.length_cons, Option.isNone_some, Bool.toNat_false]
        omega
    | added hentry hroom =>
        simp only [hentry, List.length_cons, Option.isNone_none, Bool.toNat_true]
        omega
    | expired hentry hfull hlast hexpired =>
        simp only [hentry, hlast, List.length_cons, List.length_append, List.length_nil,
          Option.isNone_none, Bool.toNat_true]
        omega
    | evicted hentry hfull hlast hlive =>
        simp only [hentry, hlast, List.length_cons, List.length_append, List.length_nil,
          Option.isNone_none, Bool.toNat_true]
        omega
  case sweep now =>
    have hparts := List.length_eq_length_filter_add (l := c.entries) (c.expired now)
    unfold sweep
    dsimp only
    omega
  case clear =>
    simp only [clear, size, List.length_nil]
    omega

/-- A lookup is counted as a hit or as a miss, and no other call is. -/
theorem lookups_after
    (c : Cache κ ν)
    (call : CacheCall κ ν) :
    (c.after call).stats.hits + (c.after call).stats.misses =
      c.stats.hits + c.stats.misses + call.isGet.toNat := by
  cases call with
  | get key now =>
      simp only [Cache.after, CacheCall.isGet, Bool.toNat_true]
      have hgets := c.gets key now
      generalize c.get key now = result at hgets ⊢
      cases hgets <;> dsimp only <;> omega
  | insert key value now =>
      simp only [Cache.after, CacheCall.isGet, Bool.toNat_false]
      have hinserts := c.inserts key value now
      generalize c.insert key value now = result at hinserts ⊢
      cases hinserts <;> rfl
  | sweep now => rfl
  | clear => rfl

/-- No call changes how many entries there may be, or how long they live. -/
theorem limits_after
    (c : Cache κ ν)
    (call : CacheCall κ ν) :
    (c.after call).capacity = c.capacity ∧ (c.after call).lifetime = c.lifetime := by
  cases call with
  | get key now => exact c.capacity_get key now
  | insert key value now => exact c.capacity_insert key value now
  | sweep now => exact ⟨rfl, rfl⟩
  | clear => exact ⟨rfl, rfl⟩

/-! ### Runs -/

/-- The table after a run. -/
def run (c : Cache κ ν) (calls : List (CacheCall κ ν)) : Cache κ ν :=
  calls.foldl after c

/-- The calls of a run, each with the table it finds. -/
def steps (c : Cache κ ν) : List (CacheCall κ ν) → List (Cache κ ν × CacheCall κ ν)
  | [] => []
  | call :: rest => (c, call) :: steps (c.after call) rest

/-- The keys that a run uses, in order. -/
def uses (c : Cache κ ν) (calls : List (CacheCall κ ν)) : List κ :=
  (c.steps calls).flatMap fun step => (step.1.used? step.2).toList

/-- How many insertions of a run find their key not in the table. -/
def arrivals (c : Cache κ ν) (calls : List (CacheCall κ ν)) : Nat :=
  (c.steps calls).countP fun step => step.1.admits step.2

/-- How many entries a run drops by clearing the table. -/
def cleared (c : Cache κ ν) : List (CacheCall κ ν) → Nat
  | [] => 0
  | call :: rest => c.clearedBy call + cleared (c.after call) rest

theorem run_concat
    (c : Cache κ ν)
    (calls : List (CacheCall κ ν))
    (call : CacheCall κ ν) :
    c.run (calls ++ [call]) = (c.run calls).after call :=
  List.foldl_concat ..

theorem run_append
    (c : Cache κ ν)
    (earlier later : List (CacheCall κ ν)) :
    c.run (earlier ++ later) = (c.run earlier).run later :=
  List.foldl_append ..

theorem steps_concat
    (c : Cache κ ν)
    (calls : List (CacheCall κ ν))
    (call : CacheCall κ ν) :
    c.steps (calls ++ [call]) = c.steps calls ++ [(c.run calls, call)] := by
  induction calls generalizing c with
  | nil =>
      rfl
  | cons first rest ih =>
      rw [List.cons_append, steps, steps, ih, List.cons_append]
      rfl

theorem arrivals_concat
    (c : Cache κ ν)
    (calls : List (CacheCall κ ν))
    (call : CacheCall κ ν) :
    c.arrivals (calls ++ [call]) = c.arrivals calls + ((c.run calls).admits call).toNat := by
  rw [arrivals, steps_concat, List.countP_append, List.countP_singleton, arrivals]
  cases (c.run calls).admits call <;> rfl

theorem cleared_concat
    (c : Cache κ ν)
    (calls : List (CacheCall κ ν))
    (call : CacheCall κ ν) :
    c.cleared (calls ++ [call]) = c.cleared calls + (c.run calls).clearedBy call := by
  induction calls generalizing c with
  | nil =>
      exact Nat.add_comm ..
  | cons first rest ih =>
      rw [List.cons_append, cleared, cleared, ih, Nat.add_assoc]
      rfl

theorem Proper.run
    (h : c.Proper)
    (calls : List (CacheCall κ ν)) :
    (c.run calls).Proper := by
  induction calls generalizing c with
  | nil => exact h
  | cons call rest ih => exact ih (h.after call)

theorem limits_run
    (c : Cache κ ν)
    (calls : List (CacheCall κ ν)) :
    (c.run calls).capacity = c.capacity ∧ (c.run calls).lifetime = c.lifetime := by
  induction calls generalizing c with
  | nil =>
      exact ⟨rfl, rfl⟩
  | cons call rest ih =>
      obtain ⟨hcapacity, hlifetime⟩ := c.limits_after call
      obtain ⟨hcapacity', hlifetime'⟩ := ih (c.after call)
      exact ⟨hcapacity'.trans hcapacity, hlifetime'.trans hlifetime⟩

theorem Proper.entryAt?_run_eq_none
    (h : c.Proper)
    {key : κ}
    (hnone : c.entryAt? key = none)
    {calls : List (CacheCall κ ν)}
    (hleaves : ∀ call ∈ calls, call.Leaves key) :
    (c.run calls).entryAt? key = none := by
  induction calls generalizing c with
  | nil =>
      exact hnone
  | cons call rest ih =>
      obtain ⟨hcall, hrest⟩ := List.forall_mem_cons.1 hleaves
      refine ih (h.after call) ?_ hrest
      cases hafter : (c.after call).entryAt? key with
      | none => rfl
      | some found =>
          rw [h.entryAt?_of_after hcall hafter] at hnone
          cases hnone

/--
As long as its key is left alone, an entry stays exactly if no call makes the key
lose it.
-/
theorem Proper.entryAt?_run_iff
    (h : c.Proper)
    {key : κ}
    {e : CacheEntry κ ν}
    (hentry : c.entryAt? key = some e)
    {calls : List (CacheCall κ ν)}
    (hleaves : ∀ call ∈ calls, call.Leaves key) :
    (c.run calls).entryAt? key = some e ↔
      ∀ step ∈ c.steps calls, ¬ step.1.Loses key e.insertedAt step.2 := by
  induction calls generalizing c with
  | nil =>
      exact iff_of_true hentry fun step hstep => absurd hstep List.not_mem_nil
  | cons call rest ih =>
      obtain ⟨hcall, hrest⟩ := List.forall_mem_cons.1 hleaves
      rw [steps, List.forall_mem_cons]
      by_cases hloses : c.Loses key e.insertedAt call
      · have hlost := h.entryAt?_after_of_loses hentry hloses
        have hnone := (h.after call).entryAt?_run_eq_none hlost hrest
        refine iff_of_false (fun hsome => ?_) fun hkept => hkept.1 hloses
        cases hnone.symm.trans hsome
      · have hkept := entryAt?_after_of_not_loses hentry hcall hloses
        exact (ih (h.after call) hkept hrest).trans (and_iff_right hloses).symm

/-! ### Histories -/

section Histories

variable (capacity lifetime : Nat) (calls : List (CacheCall κ ν))

/-- The entries of a table that started empty are ordered by the last uses of their keys. -/
theorem byUse_run :
    ((Cache.new capacity lifetime).run calls).ByUse
      ((Cache.new capacity lifetime).uses calls) := by
  induction calls using List.reverseRecOn with
  | nil =>
      exact ⟨fun e he => absurd he List.not_mem_nil, .nil⟩
  | append_singleton calls call ih =>
      have hafter := ih.after call
      rw [run_concat, uses, steps_concat, List.flatMap_append, List.flatMap_singleton]
      exact hafter

theorem lookups_run :
    ((Cache.new capacity lifetime).run calls).stats.hits +
        ((Cache.new capacity lifetime).run calls).stats.misses =
      calls.countP CacheCall.isGet := by
  induction calls using List.reverseRecOn with
  | nil =>
      rfl
  | append_singleton calls call ih =>
      rw [run_concat, lookups_after, ih, List.countP_append, List.countP_singleton]
      cases call.isGet <;> rfl

/-- What came is there, was dropped, or was cleared. -/
theorem balance_run :
    (Cache.new capacity lifetime).arrivals calls =
      ((Cache.new capacity lifetime).run calls).size +
        ((Cache.new capacity lifetime).run calls).dropped +
        (Cache.new capacity lifetime).cleared calls := by
  induction calls using List.reverseRecOn with
  | nil =>
      rfl
  | append_singleton calls call ih =>
      have hproper := (Proper.new capacity lifetime (κ := κ) (ν := ν)).run calls
      have hbalance := hproper.balance_after call
      rw [run_concat, arrivals_concat, cleared_concat, ih]
      omega

/-- The entry of a key is of its latest insertion, which came after the table was last cleared. -/
theorem exists_insert_of_entryAt?
    {key : κ}
    {e : CacheEntry κ ν}
    (h : ((Cache.new capacity lifetime).run calls).entryAt? key = some e) :
    ∃ earlier later, calls = earlier ++ .insert key e.value e.insertedAt :: later ∧
      ∀ call ∈ later, call.Leaves key := by
  induction calls using List.reverseRecOn with
  | nil =>
      cases h
  | append_singleton calls call ih =>
      rw [run_concat] at h
      rcases call.leaves_or key with hleaves | ⟨value, now, rfl⟩ | rfl
      · have hproper := (Proper.new capacity lifetime (κ := κ) (ν := ν)).run calls
        obtain ⟨earlier, later, rfl, hlater⟩ := ih (hproper.entryAt?_of_after hleaves h)
        refine ⟨earlier, later ++ [call], by rw [List.append_assoc, List.cons_append], ?_⟩
        intro other hother
        rcases List.mem_append.1 hother with hother | hother
        · exact hlater other hother
        · rwa [List.mem_singleton.1 hother]
      · have hinserted := h.symm.trans (entryAt?_insert_self _ key value now)
        obtain rfl := Option.some.inj hinserted
        exact ⟨calls, [], rfl, fun _ hcall => absurd hcall List.not_mem_nil⟩
      · cases h

end Histories

end Cache
end DocumentStore
