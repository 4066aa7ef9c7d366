import DocumentStore.OrderedMap

/-!
# Laws of ordered maps

Looking up a key after a change of the map, and changing all values of a map
before or after a change of one key.  A key has a value exactly when it stands
with it among the entries.
-/

namespace DocumentStore

universe u v w

theorem ne_of_compare_eq_lt
    {κ : Type u}
    [Ord κ]
    [Std.ReflOrd κ]
    {a b : κ}
    (h : compare a b = .lt) :
    a ≠ b := by
  rintro rfl
  rw [Std.ReflOrd.compare_self] at h
  cases h

/-- Two lists with the same members, both sorted by an asymmetric relation, are equal. -/
theorem eq_of_pairwise_of_mem_iff
    {α : Type u}
    {before : α → α → Prop}
    (hasymm : ∀ a b, before a b → ¬before b a)
    {xs ys : List α}
    (hxs : xs.Pairwise before)
    (hys : ys.Pairwise before)
    (h : ∀ a, a ∈ xs ↔ a ∈ ys) :
    xs = ys := by
  have hne : ∀ {a b : α}, before a b → a ≠ b := by
    rintro a b hab rfl
    exact hasymm a a hab hab
  have hperm : xs.Perm ys := (List.perm_ext_iff_of_nodup (hxs.imp hne) (hys.imp hne)).2 h
  exact hperm.eq_of_pairwise (fun a b _ _ hab hba => absurd hba (hasymm a b hab)) hxs hys

namespace Ascending

variable {κ : Type u} {ν : Type v} [Ord κ]

theorem find?_eq_none_of_lt
    {key : κ}
    {entries : List (κ × ν)}
    (h : ∀ e ∈ entries, compare key e.1 = .lt) :
    find? key entries = none := by
  cases entries with
  | nil =>
      rfl
  | cons head rest =>
      have hlt := h head List.mem_cons_self
      simp [find?, hlt]

theorem find?_insert_self
    [Std.ReflOrd κ]
    (key : κ)
    (value : ν)
    (entries : List (κ × ν)) :
    find? key (insert key value entries) = some value := by
  induction entries with
  | nil =>
      simp [insert, find?]
  | cons head rest ih =>
      obtain ⟨k, v⟩ := head
      simp only [insert]
      split
      · simp [find?]
      · simp [find?]
      · next hgt =>
          simp [find?, hgt, ih]

section Lookup

variable [Std.TransOrd κ] [Std.LawfulEqOrd κ]

/-- A key has a value exactly when it stands with it among the entries. -/
theorem find?_eq_some_iff
    {key : κ}
    {value : ν}
    {entries : List (κ × ν)}
    (h : Ascending entries) :
    find? key entries = some value ↔ (key, value) ∈ entries := by
  induction entries with
  | nil =>
      simp [find?]
  | cons head rest ih =>
      obtain ⟨k, v⟩ := head
      obtain ⟨hhead, hrest⟩ := List.pairwise_cons.1 h
      -- an entry of the rest lies above the head
      have habove : ∀ w, (key, w) ∈ rest → compare key k = .gt := fun w hw =>
        Std.OrientedCmp.gt_of_lt (hhead (key, w) hw)
      simp only [find?, List.mem_cons, Prod.mk.injEq]
      split
      · next hlt =>
          constructor
          · intro hnone
            cases hnone
          · rintro (⟨rfl, _⟩ | hmem)
            · rw [Std.ReflOrd.compare_self] at hlt
              cases hlt
            · rw [habove value hmem] at hlt
              cases hlt
      · next heq =>
          have hk : key = k := Std.LawfulEqOrd.eq_of_compare heq
          constructor
          · intro hv
            exact .inl ⟨hk, (Option.some.inj hv).symm⟩
          · rintro (⟨_, rfl⟩ | hmem)
            · rfl
            · rw [habove value hmem] at heq
              cases heq
      · next hgt =>
          have hne : key ≠ k := by
            rintro rfl
            rw [Std.ReflOrd.compare_self] at hgt
            cases hgt
          rw [ih hrest]
          exact ⟨.inr, fun hor => hor.resolve_left fun hkv => hne hkv.1⟩

/-- Setting a key leaves the others alone. -/
theorem find?_insert_of_ne
    {key other : κ}
    (value : ν)
    (entries : List (κ × ν))
    (hne : other ≠ key) :
    find? other (insert key value entries) = find? other entries := by
  have hcmp : compare other key ≠ .eq := fun h => hne (Std.LawfulEqOrd.eq_of_compare h)
  induction entries with
  | nil =>
      simp only [insert, find?]
      split <;> simp_all
  | cons head rest ih =>
      obtain ⟨k, v⟩ := head
      simp only [insert]
      split
      · next hlt =>
          -- the new entry stands before the head
          cases ho : compare other key with
          | lt =>
              have hk := Std.TransCmp.lt_trans ho hlt
              simp [find?, ho, hk]
          | eq =>
              exact absurd ho hcmp
          | gt =>
              simp [find?, ho]
      · next heq =>
          have hk : key = k := Std.LawfulEqOrd.eq_of_compare heq
          subst hk
          cases ho : compare other key with
          | lt =>
              simp [find?, ho]
          | eq =>
              exact absurd ho hcmp
          | gt =>
              simp [find?, ho]
      · simp [find?, ih]

omit [Std.TransOrd κ] in
/-- An erased key has no value. -/
theorem find?_erase_self
    {key : κ}
    {entries : List (κ × ν)}
    (h : Ascending entries) :
    find? key (erase key entries) = none := by
  induction entries with
  | nil =>
      rfl
  | cons head rest ih =>
      obtain ⟨k, v⟩ := head
      obtain ⟨hhead, hrest⟩ := List.pairwise_cons.1 h
      simp only [erase]
      split
      · next hlt =>
          simp [find?, hlt]
      · next heq =>
          have hk : key = k := Std.LawfulEqOrd.eq_of_compare heq
          subst hk
          exact find?_eq_none_of_lt hhead
      · next hgt =>
          simp [find?, hgt, ih hrest]

/-- Erasing a key leaves the others alone. -/
theorem find?_erase_of_ne
    {key other : κ}
    {entries : List (κ × ν)}
    (h : Ascending entries)
    (hne : other ≠ key) :
    find? other (erase key entries) = find? other entries := by
  induction entries with
  | nil =>
      rfl
  | cons head rest ih =>
      obtain ⟨k, v⟩ := head
      obtain ⟨hhead, hrest⟩ := List.pairwise_cons.1 h
      simp only [erase]
      split
      · rfl
      · next heq =>
          have hk : key = k := Std.LawfulEqOrd.eq_of_compare heq
          subst hk
          cases ho : compare other key with
          | lt =>
              have hnone : find? other rest = none :=
                find?_eq_none_of_lt fun e he => Std.TransCmp.lt_trans ho (hhead e he)
              simp [find?, ho, hnone]
          | eq =>
              exact absurd (Std.LawfulEqOrd.eq_of_compare ho) hne
          | gt =>
              simp [find?, ho]
      · simp [find?, ih hrest]

end Lookup

theorem exists_insert
    {key : κ}
    {entries : List (κ × ν)}
    (h : find? key entries = none)
    (value : ν) :
    ∃ before after, entries = before ++ after ∧
      insert key value entries = before ++ (key, value) :: after := by
  induction entries with
  | nil =>
      exact ⟨[], [], rfl, rfl⟩
  | cons head rest ih =>
      obtain ⟨k, v⟩ := head
      simp only [find?] at h
      simp only [insert]
      split at h
      · exact ⟨[], (k, v) :: rest, rfl, rfl⟩
      · cases h
      · obtain ⟨before, after, hrest, hinsert⟩ := ih h
        exact ⟨(k, v) :: before, after, by rw [hrest]; rfl, by rw [hinsert]; rfl⟩

end Ascending

namespace OrderedMap

variable {κ : Type u} {ν : Type v} [Ord κ]

section Lookup

variable [Std.TransOrd κ] [Std.LawfulEqOrd κ]

/-- A key has a value exactly when it stands with it among the entries. -/
theorem get?_eq_some_iff
    {m : OrderedMap κ ν}
    {key : κ}
    {value : ν} :
    m.get? key = some value ↔ (key, value) ∈ m.entries :=
  Ascending.find?_eq_some_iff m.ascending

/-- Looking up a key after one was set. -/
theorem get?_insert
    [DecidableEq κ]
    (m : OrderedMap κ ν)
    (key other : κ)
    (value : ν) :
    (m.insert key value).get? other = if other = key then some value else m.get? other := by
  split
  · next heq =>
      subst heq
      exact Ascending.find?_insert_self _ _ _
  · next hne =>
      exact Ascending.find?_insert_of_ne _ _ hne

theorem get?_erase
    [DecidableEq κ]
    (m : OrderedMap κ ν)
    (key other : κ) :
    (m.erase key).get? other = if other = key then none else m.get? other := by
  split
  · next heq =>
      subst heq
      exact Ascending.find?_erase_self m.ascending
  · next hne =>
      exact Ascending.find?_erase_of_ne m.ascending hne

/-- Setting a key that has no value puts the value somewhere among the values. -/
theorem exists_values_insert
    {m : OrderedMap κ ν}
    {key : κ}
    (h : m.get? key = none)
    (value : ν) :
    ∃ before after, m.values = before ++ after ∧
      (m.insert key value).values = before ++ value :: after := by
  obtain ⟨before, after, hentries, hinsert⟩ := Ascending.exists_insert h value
  refine ⟨before.map (·.2), after.map (·.2), ?_, ?_⟩
  · rw [values, hentries, List.map_append]
  · exact (congrArg (List.map (·.2)) hinsert).trans (List.map_append ..)

end Lookup

section MapValues

variable {ν' : Type w} (f : ν → ν')

@[simp] theorem get?_mapValues
    (m : OrderedMap κ ν)
    (key : κ) :
    (m.mapValues f).get? key = (m.get? key).map f := by
  obtain ⟨entries, hentries⟩ := m
  simp only [get?, mapValues]
  clear hentries
  induction entries with
  | nil =>
      rfl
  | cons head rest ih =>
      simp only [List.map_cons, Ascending.find?]
      split <;> simp_all

theorem mapValues_insert
    [Std.TransOrd κ]
    [Std.LawfulEqOrd κ]
    (m : OrderedMap κ ν)
    (key : κ)
    (value : ν) :
    (m.insert key value).mapValues f = (m.mapValues f).insert key (f value) := by
  obtain ⟨entries, hentries⟩ := m
  apply ext
  simp only [insert, mapValues]
  clear hentries
  induction entries with
  | nil =>
      rfl
  | cons head rest ih =>
      simp only [List.map_cons, Ascending.insert]
      split <;> simp_all

theorem mapValues_erase
    (m : OrderedMap κ ν)
    (key : κ) :
    (m.erase key).mapValues f = (m.mapValues f).erase key := by
  obtain ⟨entries, hentries⟩ := m
  apply ext
  simp only [erase, mapValues]
  clear hentries
  induction entries with
  | nil =>
      rfl
  | cons head rest ih =>
      simp only [List.map_cons, Ascending.erase]
      split <;> simp_all

end MapValues

end OrderedMap
end DocumentStore
