import DocumentStore.Proofs.Query.Suggestion
import DocumentStore.Proofs.Text
import DocumentStore.Store.Basic

/-!
# The names of suggested indexes

The name of a suggested index is made of words between underscores: those of the
collection, and then for each field its name and a mark if it is descending.
When no field name has an underscore or is the mark, the words of the fields can
be told from each other, and the last word that is the tenant field ends the
collection.  Then suggestions for different collections or of different fields
have different names, and creating one is not in the way of creating the other.
-/

namespace DocumentStore

/-- The word that marks a descending field in a name. -/
def descendingMark : List Char := "desc".toList

/-- A field name that is one word and not the mark. -/
structure IsWord (field : String) : Prop where
  single : '_' ∉ field.toList
  unmarked : field ≠ "desc"

instance (field : String) : Decidable (IsWord field) :=
  decidable_of_iff ('_' ∉ field.toList ∧ field ≠ "desc")
    ⟨fun h => ⟨h.1, h.2⟩, fun h => ⟨h.single, h.unmarked⟩⟩

theorem IsWord.toList_ne
    {field : String}
    (h : IsWord field) :
    field.toList ≠ descendingMark :=
  fun heq => h.unmarked (String.toList_inj.1 heq)

namespace SortField

/-- The words for a field in the name of a suggested index. -/
def words (f : SortField) : List (List Char) :=
  match f.direction with
  | .asc => [f.field.toList]
  | .desc => [f.field.toList, descendingMark]

theorem mem_words
    {f : SortField}
    {word : List Char}
    (h : word ∈ f.words) :
    word = f.field.toList ∨ word = descendingMark := by
  unfold words at h
  split at h
  · exact .inl (List.mem_singleton.1 h)
  · simpa using h

/-- The words of fields do not begin with a mark. -/
theorem head?_flatMap_words
    {fields : List SortField}
    (hwords : ∀ f ∈ fields, IsWord f.field) :
    (fields.flatMap words).head? ≠ some descendingMark := by
  cases fields with
  | nil =>
      simp
  | cons f rest =>
      have hf := (hwords f List.mem_cons_self).toList_ne
      rw [List.flatMap_cons, words]
      split <;> simpa using hf

theorem flatMap_words_ne_nil
    (f : SortField)
    (rest : List SortField) :
    (f :: rest).flatMap words ≠ [] := by
  rw [List.flatMap_cons, words]
  split <;> simp

/-- Fields are known by their words. -/
theorem eq_of_flatMap_words
    {fields fields' : List SortField}
    (hwords : ∀ f ∈ fields, IsWord f.field)
    (hwords' : ∀ f ∈ fields', IsWord f.field)
    (h : fields.flatMap words = fields'.flatMap words) :
    fields = fields' := by
  induction fields generalizing fields' with
  | nil =>
      cases fields' with
      | nil =>
          rfl
      | cons f' rest' =>
          exact absurd h.symm (flatMap_words_ne_nil f' rest')
  | cons f rest ih =>
      cases fields' with
      | nil =>
          exact absurd h (flatMap_words_ne_nil f rest)
      | cons f' rest' =>
          obtain ⟨-, hrest⟩ := List.forall_mem_cons.1 hwords
          obtain ⟨-, hrest'⟩ := List.forall_mem_cons.1 hwords'
          obtain ⟨field, direction⟩ := f
          obtain ⟨field', direction'⟩ := f'
          have hhead := head?_flatMap_words hrest
          have hhead' := head?_flatMap_words hrest'
          -- A mark after the first name tells that the first field is descending.
          cases direction <;> cases direction' <;>
            simp only [List.flatMap_cons, words, List.cons_append, List.nil_append,
              List.cons.injEq, String.toList_inj] at h
          · obtain ⟨rfl, htail⟩ := h
            rw [ih hrest hrest' htail]
          · rw [h.2] at hhead
            exact absurd rfl hhead
          · rw [← h.2] at hhead'
            exact absurd rfl hhead'
          · obtain ⟨rfl, -, htail⟩ := h
            rw [ih hrest hrest' htail]

end SortField

namespace Shape

theorem toList_nameOf (f : SortField) :
    (nameOf f).toList = f.words.flatMap ('_' :: ·) := by
  unfold nameOf SortField.words descendingMark
  cases f.direction <;> simp

/-- The name of a suggested index is made of its collection and the words of its fields. -/
theorem toList_name_suggest
    (s : Shape)
    (collection tenantField : String) :
    (s.suggest collection tenantField).name.toList =
      collection.toList ++
        ((s.suggest collection tenantField).fields.flatMap SortField.words).flatMap
          ('_' :: ·) := by
  change (Text.joined "" (collection :: (s.wantedFields tenantField).map nameOf)).toList =
    collection.toList ++ ((s.wantedFields tenantField).flatMap SortField.words).flatMap ('_' :: ·)
  rw [Text.toList_joined, List.flatMap_cons, List.flatMap_map, List.flatMap_assoc]
  simp only [toList_nameOf]

/-- The name of a suggested index is cut into the pieces of its collection and its words. -/
theorem splitAt_name_suggest
    {s : Shape}
    {collection tenantField : String}
    {d : IndexDefinition}
    (h : d = s.suggest collection tenantField)
    (hwords : ∀ f ∈ d.fields, IsWord f.field) :
    Text.splitAt '_' d.name.toList =
      Text.splitAt '_' d.collection.toList ++ d.fields.flatMap SortField.words := by
  subst h
  rw [toList_name_suggest]
  refine Text.splitAt_append_flatMap ?_ _
  intro word hword
  obtain ⟨f, hf, hword⟩ := List.mem_flatMap.1 hword
  rcases SortField.mem_words hword with rfl | rfl
  · exact (hwords f hf).single
  · decide

end Shape

namespace QuerySpec

variable {spec spec' : QuerySpec} {tenantField : String}

/-- A suggested index has the tenant field first, and no other field is the tenant field. -/
theorem exists_fields_suggest
    (hspec : spec.WellFormed tenantField) :
    ∃ rest, ((spec.shapeIn tenantField).suggest spec.collection tenantField).fields =
        ⟨tenantField, .asc⟩ :: rest ∧
      ∀ f ∈ rest, f.field ≠ tenantField := by
  have hfields : ((spec.shapeIn tenantField).suggest spec.collection tenantField).fields =
      ⟨tenantField, .asc⟩ :: _ := Shape.wantedFields_eq (spec.shapeIn tenantField) tenantField
  have hnodup := nodup_needed hspec
  rw [← fieldNames_suggest, IndexDefinition.fieldNames, hfields, List.map_cons,
    List.nodup_cons] at hnodup
  exact ⟨_, hfields, fun f hf hfield => hnodup.1 (List.mem_map.2 ⟨f, hf, hfield⟩)⟩

theorem notMem_words_of_ne
    (htenant : IsWord tenantField)
    {fields : List SortField}
    (hne : ∀ f ∈ fields, f.field ≠ tenantField) :
    tenantField.toList ∉ fields.flatMap SortField.words := by
  intro hmem
  obtain ⟨f, hf, hword⟩ := List.mem_flatMap.1 hmem
  rcases SortField.mem_words hword with hfield | hmark
  · exact hne f hf (String.toList_inj.1 hfield.symm)
  · exact htenant.toList_ne hmark

/-- Suggested indexes whose fields are words are known by their names. -/
theorem suggest_eq_of_name_eq
    (hspec : spec.WellFormed tenantField)
    (hspec' : spec'.WellFormed tenantField)
    {a b : IndexDefinition}
    (ha : a = (spec.shapeIn tenantField).suggest spec.collection tenantField)
    (hb : b = (spec'.shapeIn tenantField).suggest spec'.collection tenantField)
    (hwords : ∀ f ∈ a.fields, IsWord f.field)
    (hwords' : ∀ f ∈ b.fields, IsWord f.field)
    (hname : a.name = b.name) :
    a.collection = b.collection ∧ a.fields = b.fields := by
  obtain ⟨rest, hfields, hrest⟩ := exists_fields_suggest hspec
  obtain ⟨rest', hfields', hrest'⟩ := exists_fields_suggest hspec'
  rw [← ha] at hfields
  rw [← hb] at hfields'
  have hpieces := Shape.splitAt_name_suggest ha hwords
  rw [hname, Shape.splitAt_name_suggest hb hwords', hfields, hfields'] at hpieces
  rw [hfields] at hwords ⊢
  rw [hfields'] at hwords' ⊢
  obtain ⟨htenant, hwords⟩ := List.forall_mem_cons.1 hwords
  obtain ⟨-, hwords'⟩ := List.forall_mem_cons.1 hwords'
  -- The tenant field occurs among the fields once, so its last occurrence ends the collection.
  obtain ⟨hcollection, hfollowing⟩ := Text.append_cons_inj_of_notMem_right
    (notMem_words_of_ne htenant hrest') (notMem_words_of_ne htenant hrest) hpieces
  exact ⟨String.toList_inj.1 (Text.splitAt_inj hcollection).symm,
    congrArg _ (SortField.eq_of_flatMap_words hwords hwords' hfollowing.symm)⟩

end QuerySpec

namespace Store

/-- Declaring an index fails for its name exactly when it is sound and the name is taken. -/
theorem createIndex_eq_indexExists_iff
    {s : Store}
    {definition : IndexDefinition}
    {name : String} :
    (s.createIndex definition).1 = .error (.indexExists name) ↔
      definition.name = name ∧
        (∃ normal, definition.normalized s.catalog.tenantField = .ok normal) ∧
          (s.catalog.indexes.get? name).isSome := by
  unfold createIndex
  rw [Catalog.create_eq]
  cases hnormal : definition.normalized s.catalog.tenantField with
  | error fault =>
      simp
  | ok normal =>
      rw [← IndexDefinition.name_of_normalized hnormal]
      dsimp only
      cases htaken : s.catalog.indexes.get? normal.name with
      | none =>
          constructor
          · rintro ⟨⟩
          · rintro ⟨rfl, -, hsome⟩
            rw [htaken] at hsome
            cases hsome
      | some index =>
          constructor
          · rintro ⟨⟩
            exact ⟨rfl, ⟨normal, rfl⟩, by rw [htaken]; rfl⟩
          · rintro ⟨rfl, -⟩
            rfl

theorem createIndex_eq_indexExists_iff_of_ne
    (s : Store)
    {first second : IndexDefinition}
    (hne : first.name ≠ second.name)
    (name : String) :
    ((s.createIndex first).2.createIndex second).1 = .error (.indexExists name) ↔
      (s.createIndex second).1 = .error (.indexExists name) := by
  rw [createIndex_eq_indexExists_iff, createIndex_eq_indexExists_iff]
  refine and_congr_right ?_
  rintro rfl
  unfold createIndex
  split
  · rfl
  · next stored catalog hcreate =>
      obtain ⟨hnormal, -, rfl⟩ := Catalog.eq_of_create_eq_ok hcreate
      dsimp only
      rw [OrderedMap.get?_insert, IndexDefinition.name_of_normalized hnormal, if_neg hne.symm]

end Store

namespace Plan

/--
When two queries are refused for want of an index, and no field of the suggested
definitions has an underscore or is the mark of a direction, then suggestions
that differ in their collection or in their fields have different names.  So
creating one of them does not make the creation of the other fail for its name.
-/
theorem suggested_names_differ
    {spec spec' : QuerySpec}
    {tenantField : String}
    {definitions definitions' : List IndexDefinition}
    {collection collection' : String}
    {reason reason' : Unindexed}
    {a b : IndexDefinition}
    (ha : ofSpec spec definitions tenantField = .error (.notIndexed collection reason a))
    (hb : ofSpec spec' definitions' tenantField = .error (.notIndexed collection' reason' b))
    (hwords : ∀ f ∈ a.fields, IsWord f.field)
    (hwords' : ∀ f ∈ b.fields, IsWord f.field)
    (hdiffer : a.collection ≠ b.collection ∨ a.fields ≠ b.fields) :
    a.name ≠ b.name ∧
      ∀ (s : Store) (name : String),
        ((s.createIndex a).2.createIndex b).1 = .error (.indexExists name) ↔
          (s.createIndex b).1 = .error (.indexExists name) := by
  obtain ⟨hspec, heq, -⟩ := not_servedBy_of_notIndexed ha
  obtain ⟨hspec', heq', -⟩ := not_servedBy_of_notIndexed hb
  have hne : a.name ≠ b.name := by
    intro hname
    obtain ⟨hcollection, hfields⟩ :=
      QuerySpec.suggest_eq_of_name_eq hspec hspec' heq heq' hwords hwords' hname
    rcases hdiffer with hdiffer | hdiffer
    · exact hdiffer hcollection
    · exact hdiffer hfields
  exact ⟨hne, fun s name => s.createIndex_eq_indexExists_iff_of_ne hne name⟩

/-- The documents of a tenant in a collection that have a one in each of some fields. -/
def onesIn
    (collection : String)
    (fields : List String)
    (order : List SortField) :
    QuerySpec where
  collection
  filters := fields.map fun field => ⟨field, .eq, .ofNat 1⟩
  order
  limit := none
  tenant := "acme"

/-- The cheap orders. -/
def cheapOnes : QuerySpec := onesIn "orders" ["cost"] []

/-- The same of a collection that is named like a suggested index, the last states first. -/
def oldCheapOnes : QuerySpec := onesIn "orders_tenantId" ["cost"] [⟨"state", .desc⟩]

/-- The definitions suggested for these queries have different names. -/
theorem cheapOnes_names_differ :
    ∃ reason a reason' b,
      ofSpec cheapOnes [] "tenantId" = .error (.notIndexed "orders" reason a) ∧
      ofSpec oldCheapOnes [] "tenantId" = .error (.notIndexed "orders_tenantId" reason' b) ∧
      (∀ f ∈ a.fields, IsWord f.field) ∧
      (∀ f ∈ b.fields, IsWord f.field) ∧
      (a.collection ≠ b.collection ∨ a.fields ≠ b.fields) ∧
      a.name ≠ b.name := by
  obtain ⟨reason, a, ha, hwords, hcollection⟩ : ∃ reason a,
      ofSpec cheapOnes [] "tenantId" = .error (.notIndexed "orders" reason a) ∧
      (∀ f ∈ a.fields, IsWord f.field) ∧ a.collection = "orders" :=
    ⟨_, _, rfl, by decide +kernel, rfl⟩
  obtain ⟨reason', b, hb, hwords', hcollection'⟩ : ∃ reason' b,
      ofSpec oldCheapOnes [] "tenantId" = .error (.notIndexed "orders_tenantId" reason' b) ∧
      (∀ f ∈ b.fields, IsWord f.field) ∧ b.collection = "orders_tenantId" :=
    ⟨_, _, rfl, by decide +kernel, rfl⟩
  have hdiffer : a.collection ≠ b.collection ∨ a.fields ≠ b.fields := by
    rw [hcollection, hcollection']
    exact .inl (by decide)
  obtain ⟨hne, -⟩ := suggested_names_differ ha hb hwords hwords' hdiffer
  exact ⟨reason, a, reason', b, ha, hb, hwords, hwords', hdiffer, hne⟩

/-- The orders of a shipping date. -/
def shippedOn : QuerySpec := onesIn "orders" ["ship_date"] []

/-- The orders of a ship and a date. -/
def ofShipAndDate : QuerySpec := onesIn "orders" ["ship", "date"] []

/--
The definitions suggested for these queries have different fields and one name,
so the second cannot be declared beside the first.
-/
theorem shippedOn_name_collides :
    ∃ reason a reason' b,
      ofSpec shippedOn [] "tenantId" = .error (.notIndexed "orders" reason a) ∧
      ofSpec ofShipAndDate [] "tenantId" = .error (.notIndexed "orders" reason' b) ∧
      a.fields ≠ b.fields ∧
      a.name = b.name ∧
      let s := Store.new 500 100 600000 "tenantId"
      (s.createIndex a).1 = .ok a ∧
        ((s.createIndex a).2.createIndex b).1 = .error (.indexExists b.name) := by
  refine ⟨_, _, _, _, rfl, rfl, ?_, ?_, ?_, ?_⟩
  · decide +kernel
  · decide +kernel
  · decide +kernel
  · decide +kernel

end Plan
end DocumentStore
