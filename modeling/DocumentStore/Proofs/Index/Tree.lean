import DocumentStore.Index.Tree
import DocumentStore.Proofs.Index.Key
import DocumentStore.Proofs.OrderedMap

/-!
# Trees as sets of entries

A tree is sound when its keys ascend in the directions of their positions, no
key is without paths, and the paths of every key ascend.  Putting a path in
and taking one out keep a tree sound and change its entries as they would
change a set.  A sound tree lists each of its entries once, in order, and is
determined by them.
-/

namespace DocumentStore

/-! ### Ascending paths -/

/-- The paths are in strictly ascending order. -/
def PathsAscend (paths : List DocumentPath) : Prop :=
  paths.Pairwise fun p q => compare p q = .lt

@[simp] theorem mem_insertPath
    {path p : DocumentPath}
    {paths : List DocumentPath} :
    p ∈ insertPath path paths ↔ p = path ∨ p ∈ paths := by
  induction paths with
  | nil =>
      simp [insertPath]
  | cons q rest ih =>
      simp only [insertPath]
      split
      · simp
      · next heq =>
          have hq : path = q := Std.LawfulEqOrd.eq_of_compare heq
          subst hq
          simp
      · simp only [List.mem_cons, ih]
        exact ⟨fun h => or_left_comm.1 h, fun h => or_left_comm.1 h⟩

/-- Adding a path keeps the order. -/
theorem PathsAscend.insert
    {paths : List DocumentPath}
    (h : PathsAscend paths)
    (path : DocumentPath) :
    PathsAscend (insertPath path paths) := by
  induction paths with
  | nil =>
      exact List.pairwise_singleton _ _
  | cons q rest ih =>
      obtain ⟨hq, hrest⟩ := List.pairwise_cons.1 h
      simp only [insertPath]
      split
      · next hlt =>
          refine List.pairwise_cons.2 ⟨?_, h⟩
          intro p hp
          rcases List.mem_cons.1 hp with rfl | hp
          · exact hlt
          · exact Std.TransCmp.lt_trans hlt (hq p hp)
      · exact h
      · next hgt =>
          refine List.pairwise_cons.2 ⟨?_, ih hrest⟩
          intro p hp
          rcases mem_insertPath.1 hp with rfl | hp
          · exact Std.OrientedCmp.lt_of_gt hgt
          · exact hq p hp

/-- The paths that are left were there before. -/
theorem erasePath_sublist
    (path : DocumentPath)
    (paths : List DocumentPath) :
    (erasePath path paths).Sublist paths := by
  induction paths with
  | nil =>
      exact .slnil
  | cons q rest ih =>
      simp only [erasePath]
      split
      · exact .refl _
      · exact .cons q (.refl rest)
      · exact ih.cons_cons q

/-- Taking a path out leaves the others. -/
theorem mem_erasePath
    {path p : DocumentPath}
    {paths : List DocumentPath}
    (h : PathsAscend paths) :
    p ∈ erasePath path paths ↔ p ≠ path ∧ p ∈ paths := by
  induction paths with
  | nil =>
      simp [erasePath]
  | cons q rest ih =>
      obtain ⟨hq, hrest⟩ := List.pairwise_cons.1 h
      simp only [erasePath]
      split
      · next hlt =>
          -- the path is below all that are there
          have hbelow : ∀ r ∈ q :: rest, r ≠ path := by
            intro r hr
            rcases List.mem_cons.1 hr with rfl | hr
            · exact (ne_of_compare_eq_lt hlt).symm
            · exact (ne_of_compare_eq_lt (Std.TransCmp.lt_trans hlt (hq r hr))).symm
          exact ⟨fun hp => ⟨hbelow p hp, hp⟩, And.right⟩
      · next heq =>
          have hpath : path = q := Std.LawfulEqOrd.eq_of_compare heq
          subst hpath
          constructor
          · intro hp
            exact ⟨(ne_of_compare_eq_lt (hq p hp)).symm, List.mem_cons_of_mem _ hp⟩
          · rintro ⟨hp, hmem⟩
            exact (List.mem_cons.1 hmem).resolve_left hp
      · next hgt =>
          have hne : q ≠ path := ne_of_compare_eq_lt (Std.OrientedCmp.lt_of_gt hgt)
          rw [List.mem_cons, List.mem_cons, ih hrest]
          constructor
          · rintro (rfl | ⟨hp, hmem⟩)
            · exact ⟨hne, .inl rfl⟩
            · exact ⟨hp, .inr hmem⟩
          · rintro ⟨hp, hmem⟩
            exact hmem.imp_right fun hrest => ⟨hp, hrest⟩

namespace Tree

/-- The entries of a list of nodes: every path with its key. -/
def entriesOf (nodes : List (Key × List DocumentPath)) : List (Key × DocumentPath) :=
  nodes.flatMap fun n => n.2.map fun path => (n.1, path)

theorem mem_entriesOf
    {key : Key}
    {path : DocumentPath}
    {nodes : List (Key × List DocumentPath)} :
    (key, path) ∈ entriesOf nodes ↔ ∃ paths, (key, paths) ∈ nodes ∧ path ∈ paths := by
  simp only [entriesOf, List.mem_flatMap, List.mem_map, Prod.mk.injEq]
  constructor
  · rintro ⟨⟨k, paths⟩, hnode, p, hp, rfl, rfl⟩
    exact ⟨paths, hnode, hp⟩
  · rintro ⟨paths, hnode, hp⟩
    exact ⟨(key, paths), hnode, path, hp, rfl, rfl⟩

theorem mem_entriesOf_cons
    {e : Key × DocumentPath}
    {key : Key}
    {paths : List DocumentPath}
    {rest : List (Key × List DocumentPath)} :
    e ∈ entriesOf ((key, paths) :: rest) ↔
      (e.1 = key ∧ e.2 ∈ paths) ∨ e ∈ entriesOf rest := by
  obtain ⟨k, p⟩ := e
  simp only [entriesOf, List.flatMap_cons, List.mem_append, List.mem_map, Prod.mk.injEq]
  constructor
  · rintro (⟨q, hq, rfl, rfl⟩ | h)
    · exact .inl ⟨rfl, hq⟩
    · exact .inr h
  · rintro (⟨rfl, hp⟩ | h)
    · exact .inl ⟨p, hp, rfl, rfl⟩
    · exact .inr h

/-- A tree whose keys go in given directions, and that is sorted and without empty nodes. -/
structure Sound
    (direction : Nat → Direction)
    (t : Tree) :
    Prop where
  follows : ∀ n ∈ t.nodes, Key.Follows direction n.1
  ascending : Ascending t.nodes
  filled : ∀ n ∈ t.nodes, n.2 ≠ []
  sorted : ∀ n ∈ t.nodes, PathsAscend n.2

theorem Sound.empty (direction : Nat → Direction) :
    Sound direction Tree.empty where
  follows n h := by cases h
  ascending := List.Pairwise.nil
  filled n h := by cases h
  sorted n h := by cases h

variable {direction : Nat → Direction} {key : Key} {path : DocumentPath}

/-! ### Putting a path in -/

/-- Putting a path in is setting the paths of its key. -/
theorem insertNode_eq_insert
    {nodes : List (Key × List DocumentPath)}
    (hkey : Key.Follows direction key)
    (hnodes : ∀ n ∈ nodes, Key.Follows direction n.1) :
    insertNode key path nodes =
      Ascending.insert key
        (insertPath path ((Ascending.find? key nodes).getD [])) nodes := by
  induction nodes with
  | nil =>
      rfl
  | cons n rest ih =>
      obtain ⟨k, paths⟩ := n
      obtain ⟨hk, hrest⟩ := List.forall_mem_cons.1 hnodes
      simp only [insertNode, Ascending.insert, Ascending.find?, Key.order_eq_compare hkey hk]
      cases hcmp : compare key k with
      | lt =>
          rfl
      | eq =>
          rw [Std.LawfulEqOrd.eq_of_compare hcmp]
          rfl
      | gt =>
          rw [ih hrest]

/-- An entry that was put in joins those that were there. -/
theorem mem_entriesOf_insertNode
    {e : Key × DocumentPath}
    {nodes : List (Key × List DocumentPath)}
    (hkey : Key.Follows direction key)
    (hnodes : ∀ n ∈ nodes, Key.Follows direction n.1) :
    e ∈ entriesOf (insertNode key path nodes) ↔ e = (key, path) ∨ e ∈ entriesOf nodes := by
  induction nodes with
  | nil =>
      obtain ⟨k, p⟩ := e
      simp [insertNode, entriesOf]
  | cons n rest ih =>
      obtain ⟨k, paths⟩ := n
      obtain ⟨hk, hrest⟩ := List.forall_mem_cons.1 hnodes
      simp only [insertNode, Key.order_eq_compare hkey hk]
      split
      · rw [mem_entriesOf_cons]
        simp [Prod.ext_iff]
      · next heq =>
          have hkeys : key = k := Std.LawfulEqOrd.eq_of_compare heq
          subst hkeys
          rw [mem_entriesOf_cons, mem_entriesOf_cons, mem_insertPath, Prod.ext_iff, and_or_left,
            or_assoc]
      · rw [mem_entriesOf_cons, mem_entriesOf_cons, ih hrest]
        exact or_left_comm

/-- A sound tree stays sound when a path is put in under a key in its directions. -/
theorem Sound.insert
    {t : Tree}
    (h : Sound direction t)
    (hkey : Key.Follows direction key)
    (path : DocumentPath) :
    Sound direction (t.insert key path) := by
  have hnodes : (t.insert key path).nodes =
      Ascending.insert key
        (insertPath path ((Ascending.find? key t.nodes).getD [])) t.nodes :=
    insertNode_eq_insert hkey h.follows
  have hold : PathsAscend ((Ascending.find? key t.nodes).getD []) := by
    cases hfind : Ascending.find? key t.nodes with
    | none =>
        exact List.Pairwise.nil
    | some paths =>
        exact h.sorted (key, paths) ((Ascending.find?_eq_some_iff h.ascending).1 hfind)
  refine ⟨?_, ?_, ?_, ?_⟩
  · intro n hn
    rw [hnodes] at hn
    rcases Ascending.mem_insert hn with rfl | hn
    · exact hkey
    · exact h.follows n hn
  · rw [hnodes]
    exact Ascending.ascending_insert h.ascending
  · intro n hn
    rw [hnodes] at hn
    rcases Ascending.mem_insert hn with rfl | hn
    · exact List.ne_nil_of_mem (mem_insertPath.2 (.inl rfl))
    · exact h.filled n hn
  · intro n hn
    rw [hnodes] at hn
    rcases Ascending.mem_insert hn with rfl | hn
    · exact hold.insert path
    · exact h.sorted n hn

theorem Sound.mem_insert
    {t : Tree}
    (h : Sound direction t)
    (hkey : Key.Follows direction key)
    {e : Key × DocumentPath} :
    e ∈ (t.insert key path).toList ↔ e = (key, path) ∨ e ∈ t.toList :=
  mem_entriesOf_insertNode hkey h.follows

/-! ### Taking a path out -/

/-- The keys that are left when a path is taken out were there before. -/
theorem keys_eraseNode_sublist
    (key : Key)
    (path : DocumentPath)
    (nodes : List (Key × List DocumentPath)) :
    ((eraseNode key path nodes).map Prod.fst).Sublist (nodes.map Prod.fst) := by
  induction nodes with
  | nil =>
      exact .slnil
  | cons n rest ih =>
      obtain ⟨k, paths⟩ := n
      simp only [eraseNode]
      split
      · exact .refl _
      · split
        · exact .cons k (.refl _)
        · exact .refl _
      · exact ih.cons_cons k

/-- A node that is left when a path is taken out has some of the paths it had. -/
theorem exists_of_mem_eraseNode
    {n : Key × List DocumentPath}
    {nodes : List (Key × List DocumentPath)}
    (hfilled : ∀ m ∈ nodes, m.2 ≠ [])
    (h : n ∈ eraseNode key path nodes) :
    n.2 ≠ [] ∧ ∃ m ∈ nodes, n.1 = m.1 ∧ n.2.Sublist m.2 := by
  induction nodes with
  | nil =>
      cases h
  | cons m rest ih =>
      obtain ⟨k, paths⟩ := m
      obtain ⟨hpaths, hrest⟩ := List.forall_mem_cons.1 hfilled
      simp only [eraseNode] at h
      split at h
      · exact ⟨hfilled n h, n, h, rfl, .refl _⟩
      · split at h
        · exact ⟨hrest n h, n, List.mem_cons_of_mem _ h, rfl, .refl _⟩
        · next hleft =>
            rcases List.mem_cons.1 h with rfl | h
            · refine ⟨hleft, (k, paths), List.mem_cons_self, rfl, ?_⟩
              exact erasePath_sublist path paths
            · exact ⟨hrest n h, n, List.mem_cons_of_mem _ h, rfl, .refl _⟩
      · rcases List.mem_cons.1 h with rfl | h
        · exact ⟨hpaths, (k, paths), List.mem_cons_self, rfl, .refl _⟩
        · obtain ⟨hne, m, hm, hsame⟩ := ih hrest h
          exact ⟨hne, m, List.mem_cons_of_mem _ hm, hsame⟩

theorem notMem_entriesOf_of_lt
    {nodes : List (Key × List DocumentPath)}
    (h : ∀ n ∈ nodes, compare key n.1 = .lt)
    (p : DocumentPath) :
    (key, p) ∉ entriesOf nodes := by
  intro hmem
  obtain ⟨paths, hnode, -⟩ := mem_entriesOf.1 hmem
  exact ne_of_compare_eq_lt (h _ hnode) rfl

/-- An entry that is taken out goes, and the others stay. -/
theorem mem_entriesOf_eraseNode
    {e : Key × DocumentPath}
    {nodes : List (Key × List DocumentPath)}
    (hkey : Key.Follows direction key)
    (hnodes : ∀ n ∈ nodes, Key.Follows direction n.1)
    (hascending : Ascending nodes)
    (hsorted : ∀ n ∈ nodes, PathsAscend n.2) :
    e ∈ entriesOf (eraseNode key path nodes) ↔ e ≠ (key, path) ∧ e ∈ entriesOf nodes := by
  induction nodes with
  | nil =>
      simp [eraseNode, entriesOf]
  | cons n rest ih =>
      obtain ⟨k, paths⟩ := n
      obtain ⟨hk, hrest⟩ := List.forall_mem_cons.1 hnodes
      obtain ⟨hpaths, hsorted⟩ := List.forall_mem_cons.1 hsorted
      obtain ⟨hhead, htail⟩ := List.pairwise_cons.1 hascending
      simp only [eraseNode, Key.order_eq_compare hkey hk]
      split
      · next hlt =>
          have habsent : (key, path) ∉ entriesOf ((k, paths) :: rest) := by
            refine notMem_entriesOf_of_lt ?_ path
            intro n hn
            rcases List.mem_cons.1 hn with rfl | hn
            · exact hlt
            · exact Std.TransCmp.lt_trans hlt (hhead n hn)
          exact ⟨fun he => ⟨fun h => habsent (h ▸ he), he⟩, And.right⟩
      · next heq =>
          have hkeys : key = k := Std.LawfulEqOrd.eq_of_compare heq
          subst hkeys
          have habsent : (key, path) ∉ entriesOf rest := notMem_entriesOf_of_lt hhead path
          have hkept : ∀ {left : List DocumentPath}, erasePath path paths = left →
              ((e.1 = key ∧ e.2 ∈ left) ∨ e ∈ entriesOf rest ↔
                e ≠ (key, path) ∧ e ∈ entriesOf ((key, paths) :: rest)) := by
            rintro left rfl
            rw [mem_entriesOf_cons, mem_erasePath hpaths]
            constructor
            · rintro (⟨hkey, hne, hmem⟩ | hmem)
              · exact ⟨fun h => hne (congrArg Prod.snd h), .inl ⟨hkey, hmem⟩⟩
              · exact ⟨fun h => habsent (h ▸ hmem), .inr hmem⟩
            · rintro ⟨hne, ⟨hkey, hmem⟩ | hmem⟩
              · exact .inl ⟨hkey, fun h => hne (Prod.ext hkey h), hmem⟩
              · exact .inr hmem
          split
          · next hnil =>
              rw [← hkept hnil]
              simp
          · rw [mem_entriesOf_cons]
            exact hkept rfl
      · next hgt =>
          have hne : k ≠ key := ne_of_compare_eq_lt (Std.OrientedCmp.lt_of_gt hgt)
          rw [mem_entriesOf_cons, mem_entriesOf_cons, ih hrest htail hsorted]
          constructor
          · rintro (⟨hkey, hmem⟩ | ⟨he, hmem⟩)
            · exact ⟨fun h => hne (hkey.symm.trans (congrArg Prod.fst h)), .inl ⟨hkey, hmem⟩⟩
            · exact ⟨he, .inr hmem⟩
          · rintro ⟨he, hmem⟩
            exact hmem.imp_right fun hrest => ⟨he, hrest⟩

/-- A sound tree stays sound when a path is taken out. -/
theorem Sound.erase
    {t : Tree}
    (h : Sound direction t)
    (key : Key)
    (path : DocumentPath) :
    Sound direction (t.erase key path) := by
  refine ⟨?_, ?_, ?_, ?_⟩
  · intro n hn
    obtain ⟨-, m, hm, hkey, -⟩ := exists_of_mem_eraseNode h.filled hn
    rw [hkey]
    exact h.follows m hm
  · have hkeys : (t.nodes.map Prod.fst).Pairwise fun a b => compare a b = .lt :=
      List.pairwise_map.2 h.ascending
    exact List.pairwise_map.1 (hkeys.sublist (keys_eraseNode_sublist key path t.nodes))
  · intro n hn
    exact (exists_of_mem_eraseNode h.filled hn).1
  · intro n hn
    obtain ⟨-, m, hm, -, hpaths⟩ := exists_of_mem_eraseNode h.filled hn
    exact (h.sorted m hm).sublist hpaths

theorem Sound.mem_erase
    {t : Tree}
    (h : Sound direction t)
    (hkey : Key.Follows direction key)
    {e : Key × DocumentPath} :
    e ∈ (t.erase key path).toList ↔ e ≠ (key, path) ∧ e ∈ t.toList :=
  mem_entriesOf_eraseNode hkey h.follows h.ascending h.sorted

/-! ### The entries in order -/

/-- By key, then by path. -/
def entryOrder : Key × DocumentPath → Key × DocumentPath → Ordering :=
  compareLex (compareOn Prod.fst) (compareOn Prod.snd)

instance : Std.TransCmp entryOrder :=
  inferInstanceAs (Std.TransCmp (compareLex (compareOn Prod.fst) (compareOn Prod.snd)))

instance : Std.LawfulEqCmp entryOrder where
  eq_of_compare {a b} h := by
    obtain ⟨hkey, hpath⟩ := Ordering.then_eq_eq.1 (show (compare a.1 b.1).then
      (compare a.2 b.2) = .eq from h)
    exact Prod.ext (Std.LawfulEqOrd.eq_of_compare hkey) (Std.LawfulEqOrd.eq_of_compare hpath)

theorem ne_of_entryOrder_eq_lt
    {a b : Key × DocumentPath}
    (h : entryOrder a b = .lt) :
    a ≠ b := by
  rintro rfl
  have heq : entryOrder a a = .eq := Std.ReflCmp.compare_self
  rw [heq] at h
  cases h

/-- The entries of a sound tree stand in strictly ascending order. -/
theorem Sound.pairwise_toList
    {t : Tree}
    (h : Sound direction t) :
    t.toList.Pairwise fun a b => entryOrder a b = .lt := by
  obtain ⟨nodes⟩ := t
  obtain ⟨-, hascending, -, hsorted⟩ := h
  change (entriesOf nodes).Pairwise fun a b => entryOrder a b = .lt
  dsimp only at hascending hsorted
  induction nodes with
  | nil =>
      exact List.Pairwise.nil
  | cons n rest ih =>
      obtain ⟨k, paths⟩ := n
      obtain ⟨hpaths, hsorted⟩ := List.forall_mem_cons.1 hsorted
      obtain ⟨hhead, htail⟩ := List.pairwise_cons.1 hascending
      refine List.pairwise_append.2 ⟨?_, ih htail hsorted, ?_⟩
      · refine List.pairwise_map.2 (hpaths.imp ?_)
        intro p q hlt
        change (compare k k).then (compare p q) = .lt
        rw [Std.ReflOrd.compare_self]
        exact hlt
      · intro a ha b hb
        obtain ⟨p, -, rfl⟩ := List.mem_map.1 ha
        obtain ⟨ps, hnode, -⟩ := mem_entriesOf.1 hb
        change (compare k b.1).then (compare p b.2) = .lt
        rw [hhead _ hnode]
        rfl

theorem Sound.nodup_toList
    {t : Tree}
    (h : Sound direction t) :
    t.toList.Nodup := by
  exact h.pairwise_toList.imp ne_of_entryOrder_eq_lt

/-- A path is among those of a node exactly when the tree has the entry. -/
theorem Sound.mem_toList_iff_of_mem_nodes
    {t : Tree}
    (h : Sound direction t)
    {paths : List DocumentPath}
    (hnode : (key, paths) ∈ t.nodes)
    (p : DocumentPath) :
    (key, p) ∈ t.toList ↔ p ∈ paths := by
  have hfind : ∀ {ps : List DocumentPath}, (key, ps) ∈ t.nodes →
      Ascending.find? key t.nodes = some ps :=
    fun hmem => (Ascending.find?_eq_some_iff h.ascending).2 hmem
  constructor
  · intro hp
    obtain ⟨ps, hnode', hmem⟩ := mem_entriesOf.1 hp
    have hsame : ps = paths := Option.some.inj ((hfind hnode').symm.trans (hfind hnode))
    rwa [← hsame]
  · exact fun hp => mem_entriesOf.2 ⟨paths, hnode, hp⟩

/-- A node of a sound tree is a node of every sound tree with the same entries. -/
theorem Sound.mem_nodes_of_mem_iff
    {t u : Tree}
    (ht : Sound direction t)
    (hu : Sound direction u)
    (h : ∀ e, e ∈ t.toList ↔ e ∈ u.toList)
    {n : Key × List DocumentPath}
    (hn : n ∈ t.nodes) :
    n ∈ u.nodes := by
  obtain ⟨k, paths⟩ := n
  obtain ⟨p, hp⟩ := List.exists_mem_of_ne_nil paths (ht.filled _ hn)
  obtain ⟨ps, hnode, -⟩ :=
    mem_entriesOf.1 ((h (k, p)).1 ((ht.mem_toList_iff_of_mem_nodes hn p).2 hp))
  have hsame : paths = ps := by
    refine eq_of_pairwise_of_mem_iff ?_ (ht.sorted _ hn) (hu.sorted _ hnode) fun q => ?_
    · intro p q hpq hqp
      rw [Std.OrientedCmp.gt_of_lt hpq] at hqp
      cases hqp
    · rw [← ht.mem_toList_iff_of_mem_nodes hn, h, hu.mem_toList_iff_of_mem_nodes hnode]
  rwa [hsame]

theorem Sound.eq_of_mem_iff
    {t u : Tree}
    (ht : Sound direction t)
    (hu : Sound direction u)
    (h : ∀ e, e ∈ t.toList ↔ e ∈ u.toList) :
    t = u := by
  have hnodes : t.nodes = u.nodes := by
    refine eq_of_pairwise_of_mem_iff ?_ ht.ascending hu.ascending fun n => ?_
    · intro n m hnm hmn
      rw [Std.OrientedCmp.gt_of_lt hnm] at hmn
      cases hmn
    · exact ⟨ht.mem_nodes_of_mem_iff hu h, hu.mem_nodes_of_mem_iff ht fun e => (h e).symm⟩
  cases t
  cases u
  cases hnodes
  rfl

end Tree
end DocumentStore
