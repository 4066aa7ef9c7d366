import DocumentStore.Proofs.Gateway.Twins

/-!
# Indexes hold what is stored

In every database that can come about, each index holds exactly the entries of
the stored documents of its collection that have a key, whatever was written
and whenever the index was declared.  Declaring an index therefore comes to
the same before and after any history of writes.
-/

namespace DocumentStore
namespace Store

/-- The documents of a store stand at their keys, and its indexes hold their entries. -/
structure Indexed (s : Store) : Prop where
  placed : s.documents.Placed
  holds : s.catalog.Holds s.documents

theorem Indexed.new
    (limit capacity lifetime : Nat)
    (tenantField : String) :
    (Store.new limit capacity lifetime tenantField).Indexed :=
  ⟨.empty, .new _ _⟩

/-- A move keeps a store indexed. -/
theorem Indexed.move
    {s s' : Store}
    (hmove : Move s s')
    (h : s.Indexed) :
    s'.Indexed := by
  cases hmove with
  | replies =>
      exact ⟨h.placed, h.holds⟩
  | tick =>
      exact ⟨h.placed, h.holds⟩
  | change reading happly origin =>
      have happlied := Documents.applied_of_apply happly
      have hplaced := h.placed.apply happlied
      exact ⟨hplaced,
        h.holds.follow (Documents.changedBy_of_applied happlied) h.placed hplaced⟩

/-- The declaration of an index keeps a store indexed. -/
theorem Indexed.createIndex
    {s : Store}
    (h : s.Indexed)
    (definition : IndexDefinition) :
    (s.createIndex definition).2.Indexed := by
  unfold Store.createIndex
  split
  · exact h
  · next hcreate =>
      exact ⟨h.placed, h.holds.create hcreate⟩

/-- The removal of an index keeps a store indexed. -/
theorem Indexed.dropIndex
    {s : Store}
    (h : s.Indexed)
    (name : String) :
    (s.dropIndex name).2.Indexed := by
  unfold Store.dropIndex
  split
  · exact h
  · next hdrop =>
      exact ⟨h.placed, h.holds.drop hdrop⟩

/-- The stored documents of a collection, over all tenants. -/
def documentsOf
    (s : Store)
    (collection : String) :
    List Document :=
  s.documents.values.filter fun d => d.collection = collection

/-- One entry for each stored document of the collection of an index that has a key. -/
def entriesFor
    (s : Store)
    (definition : IndexDefinition) :
    List (Key × DocumentPath) :=
  (s.documentsOf definition.collection).filterMap
    (Index.entryFor? definition s.catalog.tenantField)

theorem Indexed.pairwise_values
    {s : Store}
    (h : s.Indexed) :
    s.documents.values.Pairwise fun d d' =>
      (⟨d.tenant, d.path⟩ : DocumentKey) ≠ ⟨d'.tenant, d'.path⟩ := by
  refine List.pairwise_map.2 (s.documents.ascending.imp_of_mem ?_)
  intro a b ha hb hlt
  have hstands : ∀ e ∈ s.documents.entries, e.1 = ⟨e.2.tenant, e.2.path⟩ := fun e he =>
    (h.placed e.1 e.2 (OrderedMap.get?_eq_some_iff.2 he)).key_eq
  rw [← hstands a ha, ← hstands b hb]
  exact ne_of_compare_eq_lt hlt

/-- Stored documents have different entries. -/
theorem Indexed.nodup_entriesFor
    {s : Store}
    (h : s.Indexed)
    {definition : IndexDefinition}
    (hfirst : definition.TenantFirst s.catalog.tenantField) :
    (s.entriesFor definition).Nodup := by
  refine List.pairwise_filterMap.2 ((h.pairwise_values.filter _).imp ?_)
  rintro d d' hne e he e' he' rfl
  exact hne (Index.key_eq_of_entryFor? hfirst he' he)

/-- The tree of an index lists the entries of the stored documents. -/
theorem Indexed.toList_perm
    {s : Store}
    (h : s.Indexed)
    {name : String}
    {index : Index}
    (hindex : s.catalog.indexes.get? name = some index) :
    index.tree.toList.Perm (s.entriesFor index.definition) := by
  obtain ⟨-, hholds⟩ := h.holds name index hindex
  refine (List.perm_ext_iff_of_nodup hholds.sound.nodup_toList
    (h.nodup_entriesFor hholds.tenantFirst)).2 ?_
  intro e
  rw [hholds.entries]
  simp only [entriesFor, documentsOf, List.mem_filterMap, List.mem_filter, decide_eq_true_eq,
    and_assoc]

/-! ### Declaring an index early or late -/

/-- The catalog after an index was declared over the stored documents. -/
def declaredIn
    (definition : IndexDefinition)
    (docs : Documents)
    (c : Catalog) :
    Catalog :=
  match c.create definition docs.values with
  | .error _ => c
  | .ok (_, c') => c'

theorem createIndex_snd
    (s : Store)
    (definition : IndexDefinition) :
    (s.createIndex definition).2 =
      { s with catalog := declaredIn definition s.documents s.catalog } := by
  unfold createIndex declaredIn
  cases s.catalog.create definition s.documents.values <;> rfl

/-- One catalog is the other with an index declared in it. -/
def WithIndex (definition : IndexDefinition) : CatalogRelation :=
  fun docs c c' => docs.Placed ∧ c' = declaredIn definition docs c

/-- A catalog with an index declared in it stays so when both follow a change. -/
theorem kept_withIndex (definition : IndexDefinition) :
    (WithIndex definition).Kept := by
  rintro docs docs' c c' tenant write now change ⟨hplaced, rfl⟩ happly
  have happlied := Documents.applied_of_apply happly
  have hplaced' := hplaced.apply happlied
  refine ⟨hplaced', ?_⟩
  unfold declaredIn
  rw [Catalog.create_follow (Documents.changedBy_of_applied happlied) hplaced hplaced']
  cases c.create definition docs.values <;> rfl

end Store

namespace Database

theorem Reachable.indexed
    {db : Database}
    (h : Reachable db) :
    db.store.Indexed :=
  h.store_induction Store.Indexed.new (fun hmove hs => hs.move hmove)
    (fun _ definition hs => hs.createIndex definition) fun _ name hs => hs.dropIndex name

theorem twins_createIndex
    {db : Database}
    (hplaced : db.store.documents.Placed)
    (definition : IndexDefinition) :
    Twins (Store.WithIndex definition) db (db.createIndex definition).2 :=
  ⟨_, rfl, _, Store.createIndex_snd db.store definition, hplaced, rfl⟩

/-- Twins of which one has an index more are one database, before and after its declaration. -/
theorem Twins.eq_createIndex
    {d e : Database}
    {definition : IndexDefinition}
    (h : Twins (Store.WithIndex definition) d e) :
    e = (d.createIndex definition).2 := by
  obtain ⟨store, rfl, catalog, rfl, -, rfl⟩ := h
  unfold createIndex
  dsimp only
  rw [Store.createIndex_snd]

theorem createIndex_run
    {db : Database}
    (hplaced : db.store.documents.Placed)
    (definition : IndexDefinition)
    {history : List Action}
    (hwrites : ∀ action ∈ history, action.isIndexing = false) :
    (db.createIndex definition).2.run history = ((db.run history).createIndex definition).2 := by
  suffices hrun : ∀ {d e : Database}, Twins (Store.WithIndex definition) d e →
      Twins (Store.WithIndex definition) (d.run history) (e.run history) from
    (hrun (twins_createIndex hplaced definition)).eq_createIndex
  induction history with
  | nil =>
      exact fun h => h
  | cons action rest ih =>
      obtain ⟨haction, hrest⟩ := List.forall_mem_cons.1 hwrites
      exact fun h => ih hrest (h.after (Store.kept_withIndex definition) haction)

/--
In every reachable database the tree of an index holds one entry for each
stored document of its collection, over all tenants, that has a key, and
nothing else; no entry is there twice, and no key is without paths.  So an
index that is declared after a history of writes is the one that would have
come of declaring it before them, and so is all the rest of the database.
-/
theorem Reachable.trees_hold_documents
    {db : Database}
    (h : Reachable db) :
    (∀ name index, db.store.catalog.indexes.get? name = some index →
      index.tree.toList.Perm (db.store.entriesFor index.definition) ∧
        index.tree.toList.Nodup ∧ ∀ node ∈ index.tree.nodes, node.2 ≠ []) ∧
      ∀ definition history, (∀ action ∈ history, action.isIndexing = false) →
        (db.createIndex definition).2.run history =
          ((db.run history).createIndex definition).2 := by
  have hindexed := h.indexed
  constructor
  · intro name index hindex
    obtain ⟨-, hholds⟩ := hindexed.holds name index hindex
    exact ⟨hindexed.toList_perm hindex, hholds.sound.nodup_toList, hholds.sound.filled⟩
  · intro definition history hwrites
    exact createIndex_run hindexed.placed definition hwrites

/-- A database with the default settings and no rules. -/
def fresh : Database where
  settings := {}
  store := Store.new 500 100000 600000 "tenantId"
  guard := Guard.new RuleSet.empty {}

theorem reachable_fresh : Reachable fresh := by
  have hopened : Database.new {} RuleSet.empty = .ok fresh := rfl
  exact .opened hopened

/-- The index of orders by their state. -/
def byState : IndexDefinition := ⟨"by_state", "orders", [⟨"state", .desc⟩]⟩

/-- An order in a state. -/
def inState (state : Json) : Json := .object [("state", state)]

/-- Orders of two tenants at one path, before and after an index is declared. -/
def orderHistory : List Action :=
  let moment : Moment := ⟨0, fun _ => ⟨7⟩⟩
  [.create moment "acme" "ann" "orders/1" (inState (.string "open")) none,
   .createIndex byState,
   .create moment "zeta" "ann" "orders/1" (inState (.string "open")) none,
   .create moment "acme" "ann" "orders/2" (inState (.array [])) none,
   .update moment "acme" "ann" "orders/1" (inState (.string "done")) (some 1) true none,
   .delete moment "zeta" "ann" "orders/1" none none]

/-- Of the orders one is left that has a state with a place in a key. -/
theorem tree_after_orderHistory :
    Reachable (fresh.run orderHistory) ∧
      ∃ index, (fresh.run orderHistory).store.catalog.indexes.get? "by_state" = some index ∧
        index.tree.toList.length = 1 ∧
          index.tree.toList.Perm ((fresh.run orderHistory).store.entriesFor index.definition) := by
  have hreachable : Reachable (fresh.run orderHistory) :=
    reachable_fresh.run orderHistory
  have hcount : ((fresh.run orderHistory).store.catalog.indexes.get? "by_state").map
      (fun index => index.tree.toList.length) = some 1 := by decide +kernel
  obtain ⟨index, hindex, hlength⟩ := Option.map_eq_some_iff.1 hcount
  have hperm := (hreachable.trees_hold_documents.1 "by_state" index hindex).1
  exact ⟨hreachable, index, hindex, hlength, hperm⟩

end Database
end DocumentStore
