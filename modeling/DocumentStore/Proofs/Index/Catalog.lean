import DocumentStore.Proofs.Index.Entries

/-!
# The catalog holds what is stored

Every index of a catalog holds exactly the entries of the stored documents of
its collection that have a key.  Following a change keeps this, and so do
declaring an index, which enters the stored documents one after the other, and
removing one.  What an index holds determines its tree.
-/

namespace DocumentStore

namespace Documents

theorem mem_values_iff
    {docs : Documents}
    {doc : Document} :
    doc ∈ docs.values ↔ ∃ key, docs.get? key = some doc := by
  simp only [OrderedMap.values, List.mem_map, OrderedMap.get?_eq_some_iff]
  constructor
  · rintro ⟨⟨key, d⟩, hmem, rfl⟩
    exact ⟨key, hmem⟩
  · rintro ⟨key, hmem⟩
    exact ⟨(key, doc), hmem, rfl⟩

/-- A change leaves the documents of other collections alone. -/
theorem ChangedBy.get?_of_collection_ne
    {docs docs' : Documents}
    {change : Change}
    (h : docs.ChangedBy change docs')
    (hplaced : docs.Placed)
    (hplaced' : docs'.Placed)
    {key : DocumentKey}
    {doc : Document}
    (hother : doc.collection ≠ change.path.collection) :
    docs'.get? key = some doc ↔ docs.get? key = some doc := by
  -- no document of another collection stands where the change was made
  have hne : ∀ {some' : Documents}, some'.Placed → some'.get? key = some doc →
      key ≠ keyOf change := by
    rintro some' hsome' hkey rfl
    exact hother (hsome' _ _ hkey).collection
  constructor
  · intro hkey
    rw [← h.others key (hne hplaced' hkey)]
    exact hkey
  · intro hkey
    rw [h.others key (hne hplaced hkey)]
    exact hkey

end Documents

namespace Index

/-- An index holds the entries of the documents of its collection that have a key. -/
structure Holds
    (tenantField : String)
    (docs : Documents)
    (index : Index) :
    Prop where
  sound : index.Sound
  tenantFirst : index.definition.TenantFirst tenantField
  entries : ∀ e, e ∈ index.tree.toList ↔
    ∃ doc ∈ docs.values, doc.collection = index.definition.collection ∧
      entryFor? index.definition tenantField doc = some e

variable {tenantField : String}

theorem Holds.eq
    {docs : Documents}
    {index other : Index}
    (h : index.Holds tenantField docs)
    (hother : other.Holds tenantField docs)
    (hdefinition : other.definition = index.definition) :
    other = index := by
  obtain ⟨definition, tree⟩ := index
  obtain ⟨definition', tree'⟩ := other
  cases hdefinition
  have htree : tree' = tree :=
    Tree.Sound.eq_of_mem_iff hother.sound h.sound fun e =>
      (hother.entries e).trans (h.entries e).symm
  rw [htree]

/--
The entries of the documents after a change in a collection: that of what the
change has left, and those of before without that of what it has replaced.
-/
theorem exists_entry_iff_of_changedBy
    {docs docs' : Documents}
    {definition : IndexDefinition}
    {change : Change}
    (hfirst : definition.TenantFirst tenantField)
    (hchanged : docs.ChangedBy change docs')
    (hplaced : docs.Placed)
    (hplaced' : docs'.Placed)
    (hcollection : definition.collection = change.path.collection)
    (e : Key × DocumentPath) :
    (∃ doc ∈ docs'.values, doc.collection = definition.collection ∧
        entryFor? definition tenantField doc = some e) ↔
      change.after.bind (entryFor? definition tenantField) = some e ∨
        (change.before.bind (entryFor? definition tenantField) ≠ some e ∧
          ∃ doc ∈ docs.values, doc.collection = definition.collection ∧
            entryFor? definition tenantField doc = some e) := by
  constructor
  · rintro ⟨doc, hdoc, hdocs, hentry⟩
    obtain ⟨key, hkey⟩ := Documents.mem_values_iff.1 hdoc
    by_cases hchange : key = Documents.keyOf change
    · subst hchange
      rw [hchanged.after] at hkey
      exact .inl (by rw [hkey]; exact hentry)
    · rw [hchanged.others key hchange] at hkey
      refine .inr ⟨?_, doc, Documents.mem_values_iff.2 ⟨key, hkey⟩, hdocs, hentry⟩
      -- the earlier form had another entry, since it stands at another key
      intro hbefore
      obtain ⟨before, hbefore, hentry'⟩ := Option.bind_eq_some_iff.1 hbefore
      have hstands := (hplaced _ _ (hchanged.before.trans hbefore)).key_eq
      have hsame := key_eq_of_entryFor? hfirst hentry hentry'
      exact hchange ((hplaced _ _ hkey).key_eq.trans (hsame.symm.trans hstands.symm))
  · rintro (hafter | ⟨hbefore, doc, hdoc, hdocs, hentry⟩)
    · obtain ⟨doc, hdoc, hentry⟩ := Option.bind_eq_some_iff.1 hafter
      have hstored := hchanged.after.trans hdoc
      refine ⟨doc, Documents.mem_values_iff.2 ⟨_, hstored⟩, ?_, hentry⟩
      rw [hcollection]
      exact (hplaced' _ _ hstored).collection
    · obtain ⟨key, hkey⟩ := Documents.mem_values_iff.1 hdoc
      -- the document is not the one that was changed: its entry would have been taken out
      have hne : key ≠ Documents.keyOf change := by
        rintro rfl
        rw [hchanged.before] at hkey
        rw [hkey] at hbefore
        exact hbefore hentry
      exact ⟨doc, Documents.mem_values_iff.2 ⟨key, (hchanged.others key hne).trans hkey⟩,
        hdocs, hentry⟩

/-- An index that follows a change holds the entries of the documents after it. -/
theorem Holds.follow
    {docs docs' : Documents}
    {index : Index}
    {change : Change}
    (h : index.Holds tenantField docs)
    (hchanged : docs.ChangedBy change docs')
    (hplaced : docs.Placed)
    (hplaced' : docs'.Placed) :
    (index.follow tenantField change).Holds tenantField docs' := by
  refine ⟨h.sound.follow tenantField change, by rw [definition_follow]; exact h.tenantFirst, ?_⟩
  intro e
  rw [definition_follow]
  by_cases hcollection : index.definition.collection = change.path.collection
  · rw [h.sound.mem_follow tenantField hcollection, h.entries,
      exists_entry_iff_of_changedBy h.tenantFirst hchanged hplaced hplaced' hcollection]
  · have hfollow : index.follow tenantField change = index := by
      unfold Index.follow
      rw [if_neg hcollection]
    rw [hfollow, h.entries]
    refine exists_congr fun doc => ?_
    simp only [Documents.mem_values_iff, and_congr_left_iff, and_imp]
    intro hdocs _
    refine exists_congr fun key => (hchanged.get?_of_collection_ne hplaced hplaced' ?_).symm
    rw [hdocs]
    exact hcollection

/-! ### Declaring an index -/

/-- An index into which documents have been entered one after the other. -/
def enterAll
    (tenantField : String)
    (docs : List Document)
    (index : Index) :
    Index :=
  docs.foldl (fun i d => i.add tenantField d) index

/-- Entering documents changes nothing but the tree. -/
theorem definition_enterAll
    (docs : List Document)
    (index : Index) :
    (enterAll tenantField docs index).definition = index.definition := by
  induction docs generalizing index with
  | nil =>
      rfl
  | cons doc rest ih =>
      exact (ih (index.add tenantField doc)).trans (definition_add index tenantField doc)

/-- An index stays sound when documents are entered. -/
theorem Sound.enterAll
    {index : Index}
    (h : index.Sound)
    (docs : List Document) :
    (Index.enterAll tenantField docs index).Sound := by
  induction docs generalizing index with
  | nil =>
      exact h
  | cons doc rest ih =>
      exact ih (h.add tenantField doc)

/-- The entries of documents that were entered join those that were there. -/
theorem Sound.mem_enterAll
    {index : Index}
    (h : index.Sound)
    (docs : List Document)
    (e : Key × DocumentPath) :
    e ∈ (Index.enterAll tenantField docs index).tree.toList ↔
      (∃ doc ∈ docs, entryFor? index.definition tenantField doc = some e) ∨
        e ∈ index.tree.toList := by
  induction docs generalizing index with
  | nil =>
      simp [Index.enterAll]
  | cons doc rest ih =>
      have hrest := ih (h.add tenantField doc)
      rw [definition_add, h.mem_add] at hrest
      refine hrest.trans ?_
      simp only [List.mem_cons, exists_eq_or_imp]
      rw [← or_assoc]
      exact or_congr_left or_comm

/-- The index of a definition with the given documents of its collection. -/
def ofDocuments
    (definition : IndexDefinition)
    (tenantField : String)
    (docs : List Document) :
    Index :=
  enterAll tenantField (docs.filter fun d => d.collection = definition.collection)
    ⟨definition, Tree.empty⟩

@[simp] theorem definition_ofDocuments
    (definition : IndexDefinition)
    (tenantField : String)
    (docs : List Document) :
    (ofDocuments definition tenantField docs).definition = definition :=
  definition_enterAll _ _

/-- The index that is made of the stored documents holds their entries. -/
theorem holds_ofDocuments
    {definition : IndexDefinition}
    (hfirst : definition.TenantFirst tenantField)
    (docs : Documents) :
    (ofDocuments definition tenantField docs.values).Holds tenantField docs := by
  have hempty : Sound ⟨definition, Tree.empty⟩ := Tree.Sound.empty _
  refine ⟨hempty.enterAll _, by rw [definition_ofDocuments]; exact hfirst, ?_⟩
  intro e
  rw [definition_ofDocuments, ofDocuments, hempty.mem_enterAll]
  have hnone : e ∉ Tree.empty.toList := List.not_mem_nil
  simp only [hnone, or_false, List.mem_filter, decide_eq_true_eq, and_assoc]

end Index

namespace Catalog

variable {c : Catalog} {docs : Documents}

/-- Every index of a catalog has its name and holds the entries of the stored documents. -/
def Holds
    (docs : Documents)
    (c : Catalog) :
    Prop :=
  ∀ name index, c.indexes.get? name = some index →
    index.definition.name = name ∧ index.Holds c.tenantField docs

theorem Holds.new
    (docs : Documents)
    (tenantField : String) :
    (Catalog.new tenantField).Holds docs := by
  intro name index h
  cases h

theorem Holds.follow
    {docs' : Documents}
    {change : Change}
    (h : c.Holds docs)
    (hchanged : docs.ChangedBy change docs')
    (hplaced : docs.Placed)
    (hplaced' : docs'.Placed) :
    (c.follow change).Holds docs' := by
  intro name index hindex
  simp only [Catalog.follow, OrderedMap.get?_mapValues, Option.map_eq_some_iff] at hindex
  obtain ⟨old, hold, rfl⟩ := hindex
  obtain ⟨hname, hholds⟩ := h name old hold
  exact ⟨by rw [Index.definition_follow]; exact hname,
    hholds.follow hchanged hplaced hplaced'⟩

/-- Declaring an index enters the index of its normal definition, if the name is free. -/
theorem create_eq
    (c : Catalog)
    (definition : IndexDefinition)
    (documents : List Document) :
    c.create definition documents =
      match definition.normalized c.tenantField with
      | .error fault => .error (.invalidDefinition fault)
      | .ok declared =>
          match c.indexes.get? declared.name with
          | some _ => .error (.indexExists declared.name)
          | none =>
              .ok (declared,
                { c with
                  indexes := c.indexes.insert declared.name
                    (Index.ofDocuments declared c.tenantField documents) }) :=
  rfl

/-- What declaring an index does when it succeeds. -/
theorem eq_of_create_eq_ok
    {c' : Catalog}
    {definition declared : IndexDefinition}
    {documents : List Document}
    (h : c.create definition documents = .ok (declared, c')) :
    definition.normalized c.tenantField = .ok declared ∧
      c.indexes.get? declared.name = none ∧
        c' = { c with
          indexes := c.indexes.insert declared.name
            (Index.ofDocuments declared c.tenantField documents) } := by
  rw [create_eq] at h
  split at h
  · cases h
  · next normal hnormal =>
      split at h
      · cases h
      · next hnone =>
          cases h
          exact ⟨hnormal, hnone, rfl⟩

/-- A new index holds the stored documents, and the other indexes still do. -/
theorem Holds.create
    {c' : Catalog}
    {definition declared : IndexDefinition}
    (h : c.Holds docs)
    (hcreate : c.create definition docs.values = .ok (declared, c')) :
    c'.Holds docs := by
  obtain ⟨hnormal, -, rfl⟩ := eq_of_create_eq_ok hcreate
  intro name index hindex
  rw [OrderedMap.get?_insert] at hindex
  split at hindex
  · next hname =>
      cases hindex
      refine ⟨?_, Index.holds_ofDocuments (IndexDefinition.tenantFirst_of_normalized hnormal) docs⟩
      rw [hname, Index.definition_ofDocuments]
  · exact h name index hindex

/-- What is left when an index is removed holds the stored documents. -/
theorem Holds.drop
    {c' : Catalog}
    {name : String}
    {definition : IndexDefinition}
    (h : c.Holds docs)
    (hdrop : c.drop name = .ok (definition, c')) :
    c'.Holds docs := by
  unfold Catalog.drop at hdrop
  split at hdrop
  · cases hdrop
  · cases hdrop
    intro other index hindex
    rw [OrderedMap.get?_erase] at hindex
    split at hindex
    · cases hindex
    · exact h other index hindex

/--
Declaring an index before or after a change comes to the same: the index that
follows the change is the one made of the documents after it.
-/
theorem create_follow
    {docs' : Documents}
    {change : Change}
    {definition : IndexDefinition}
    (hchanged : docs.ChangedBy change docs')
    (hplaced : docs.Placed)
    (hplaced' : docs'.Placed) :
    (c.follow change).create definition docs'.values =
      (c.create definition docs.values).map fun r => (r.1, r.2.follow change) := by
  rw [create_eq, create_eq]
  simp only [Catalog.follow, OrderedMap.get?_mapValues]
  cases hnormal : definition.normalized c.tenantField with
  | error fault =>
      rfl
  | ok declared =>
      dsimp only
      cases c.indexes.get? declared.name with
      | some index =>
          rfl
      | none =>
          have hfirst := IndexDefinition.tenantFirst_of_normalized hnormal
          have hbefore := Index.holds_ofDocuments hfirst docs
          have hafter := Index.holds_ofDocuments hfirst docs'
          have hsame := (hbefore.follow hchanged hplaced hplaced').eq hafter (by simp)
          simp only [Option.map_none, Except.map, OrderedMap.mapValues_insert, hsame]

end Catalog
end DocumentStore
