/-!
# Ordered maps

A finite map as the list of its entries in strictly ascending order of their
keys.  The list is the view of the map: two maps with the same entries are
equal, and a traversal is the list itself.
-/

namespace DocumentStore

universe u v w

/-- The keys of a list of entries ascend strictly. -/
def Ascending
    {κ : Type u}
    {ν : Type v}
    [Ord κ]
    (entries : List (κ × ν)) :
    Prop :=
  entries.Pairwise fun a b => compare a.1 b.1 = .lt

namespace Ascending

variable {κ : Type u} {ν : Type v} [Ord κ]

/-- The value of a key in ascending entries. -/
def find?
    (key : κ) :
    List (κ × ν) → Option ν
  | [] => none
  | (k, v) :: rest =>
      match compare key k with
      | .lt => none
      | .eq => some v
      | .gt => find? key rest

/-- Set the value of a key in ascending entries. -/
def insert
    (key : κ)
    (value : ν) :
    List (κ × ν) → List (κ × ν)
  | [] => [(key, value)]
  | (k, v) :: rest =>
      match compare key k with
      | .lt => (key, value) :: (k, v) :: rest
      | .eq => (key, value) :: rest
      | .gt => (k, v) :: insert key value rest

/-- Remove a key from ascending entries. -/
def erase
    (key : κ) :
    List (κ × ν) → List (κ × ν)
  | [] => []
  | (k, v) :: rest =>
      match compare key k with
      | .lt => (k, v) :: rest
      | .eq => rest
      | .gt => (k, v) :: erase key rest

/-- An entry of an insertion is the new one or an old one. -/
theorem mem_insert
    {key : κ}
    {value : ν}
    {e : κ × ν}
    {entries : List (κ × ν)}
    (h : e ∈ insert key value entries) :
    e = (key, value) ∨ e ∈ entries := by
  induction entries with
  | nil => simpa [insert] using h
  | cons head rest ih =>
      obtain ⟨k, v⟩ := head
      simp only [insert] at h
      split at h <;> simp only [List.mem_cons] at h ⊢
      · exact h
      · rcases h with h | h
        · exact .inl h
        · exact .inr (.inr h)
      · rcases h with h | h
        · exact .inr (.inl h)
        · rcases ih h with h | h
          · exact .inl h
          · exact .inr (.inr h)

/-- An entry that an erasure leaves was there. -/
theorem mem_erase
    {key : κ}
    {e : κ × ν}
    {entries : List (κ × ν)}
    (h : e ∈ erase key entries) :
    e ∈ entries := by
  induction entries with
  | nil => simp [erase] at h
  | cons head rest ih =>
      obtain ⟨k, v⟩ := head
      simp only [erase] at h
      split at h
      · exact h
      · exact List.mem_cons_of_mem _ h
      · rcases List.mem_cons.1 h with h | h
        · exact List.mem_cons.2 (.inl h)
        · exact List.mem_cons_of_mem _ (ih h)

/-- Insertion keeps the order. -/
theorem ascending_insert
    [Std.TransOrd κ]
    [Std.LawfulEqOrd κ]
    {key : κ}
    {value : ν}
    {entries : List (κ × ν)}
    (h : Ascending entries) :
    Ascending (insert key value entries) := by
  induction entries with
  | nil => simp [insert, Ascending]
  | cons head rest ih =>
      obtain ⟨k, v⟩ := head
      have hrest : Ascending rest := (List.pairwise_cons.1 h).2
      have hhead := (List.pairwise_cons.1 h).1
      simp only [insert]
      split
      · next hlt =>
          refine List.pairwise_cons.2 ⟨?_, h⟩
          intro e he
          rcases List.mem_cons.1 he with rfl | he
          · exact hlt
          · exact Std.TransCmp.lt_trans hlt (hhead e he)
      · next heq =>
          have hk : key = k := Std.LawfulEqOrd.eq_of_compare heq
          subst hk
          exact List.pairwise_cons.2 ⟨hhead, hrest⟩
      · next hgt =>
          refine List.pairwise_cons.2 ⟨?_, ih hrest⟩
          intro e he
          rcases mem_insert he with rfl | he
          · exact Std.OrientedCmp.lt_of_gt hgt
          · exact hhead e he

theorem ascending_erase
    {key : κ}
    {entries : List (κ × ν)}
    (h : Ascending entries) :
    Ascending (erase key entries) := by
  induction entries with
  | nil => exact h
  | cons head rest ih =>
      obtain ⟨k, v⟩ := head
      have hrest : Ascending rest := (List.pairwise_cons.1 h).2
      have hhead := (List.pairwise_cons.1 h).1
      simp only [erase]
      split
      · exact h
      · exact hrest
      · exact List.pairwise_cons.2 ⟨fun e he => hhead e (mem_erase he), ih hrest⟩

end Ascending

/-- A finite map with its entries in ascending order of their keys. -/
structure OrderedMap
    (κ : Type u)
    (ν : Type v)
    [Ord κ] where
  entries : List (κ × ν)
  ascending : Ascending entries

namespace OrderedMap

variable {κ : Type u} {ν : Type v} [Ord κ]

/-- The map without entries. -/
def empty : OrderedMap κ ν := ⟨[], List.Pairwise.nil⟩

instance : Inhabited (OrderedMap κ ν) := ⟨empty⟩

@[ext]
theorem ext
    {a b : OrderedMap κ ν}
    (h : a.entries = b.entries) :
    a = b := by
  cases a
  cases b
  cases h
  rfl

instance [DecidableEq κ] [DecidableEq ν] : DecidableEq (OrderedMap κ ν) :=
  fun a b => decidable_of_iff (a.entries = b.entries) ⟨ext, fun h => h ▸ rfl⟩

/-- The value of a key. -/
def get?
    (m : OrderedMap κ ν)
    (key : κ) :
    Option ν :=
  Ascending.find? key m.entries

/-- The values in ascending order of their keys. -/
def values (m : OrderedMap κ ν) : List ν :=
  m.entries.map (·.2)

/-- The number of entries. -/
def size (m : OrderedMap κ ν) : Nat :=
  m.entries.length

/-- Set the value of a key. -/
def insert
    [Std.TransOrd κ]
    [Std.LawfulEqOrd κ]
    (m : OrderedMap κ ν)
    (key : κ)
    (value : ν) :
    OrderedMap κ ν :=
  ⟨Ascending.insert key value m.entries, Ascending.ascending_insert m.ascending⟩

/-- Remove a key. -/
def erase
    (m : OrderedMap κ ν)
    (key : κ) :
    OrderedMap κ ν :=
  ⟨Ascending.erase key m.entries, Ascending.ascending_erase m.ascending⟩

/-- Change every value, keeping the keys. -/
def mapValues
    {ν' : Type w}
    (m : OrderedMap κ ν)
    (f : ν → ν') :
    OrderedMap κ ν' :=
  ⟨m.entries.map fun e => (e.1, f e.2), by
    have h := m.ascending
    simp only [Ascending] at h ⊢
    exact List.pairwise_map.2 h⟩

end OrderedMap
end DocumentStore
