import DocumentStore.Proofs.Query.Order
import Mathlib.Data.String.Basic

/-!
# The choice of an index

Of the indexes that serve a query one with the highest score is chosen, and of
several the one whose name comes first.  So a new index takes the place of the
chosen one or leaves it chosen.  Every index that serves a query has its
fields from the query, except those at its end; only a document without a
value for such a further field can be in the answer by one index and not in
the answer by another.
-/

namespace DocumentStore

namespace Plan

/-! ### The best of several indexes -/

/-- An index takes the place of another: it has a higher score, or the same and an earlier name. -/
def Beats (p q : Nat × IndexDefinition) : Prop :=
  q.1 < p.1 ∨ (p.1 = q.1 ∧ p.2.name < q.2.name)

variable {p q r : Nat × IndexDefinition}

/-- Of two indexes at most one takes the place of the other. -/
theorem Beats.asymm
    (h : Beats p q) :
    ¬ Beats q p := by
  rintro (hscore | ⟨heq, hname⟩)
  · rcases h with hscore' | ⟨heq', -⟩ <;> omega
  · rcases h with hscore' | ⟨-, hname'⟩
    · omega
    · exact absurd hname (not_lt_of_gt hname')

/-- What takes the place of an index takes the place of everything that does not. -/
theorem Beats.of_not_beats
    (h : Beats p q)
    (hr : ¬ Beats r q) :
    Beats p r := by
  unfold Beats at hr
  rw [not_or, not_and, Nat.not_lt] at hr
  obtain ⟨hle, hname⟩ := hr
  rcases h with hscore | ⟨heq, hfirst⟩
  · exact .inl (Nat.lt_of_le_of_lt hle hscore)
  · rcases Nat.lt_or_eq_of_le hle with hlt | hsame
    · exact .inl (heq ▸ hlt)
    · exact .inr ⟨heq.trans hsame.symm, lt_of_lt_of_le hfirst (not_lt.1 (hname hsame))⟩

theorem better_of_beats
    (h : Beats p q) :
    better (some q) p = some p :=
  if_pos h

theorem better_of_not_beats
    (h : ¬ Beats p q) :
    better (some q) p = some q :=
  if_neg h

/-- An index that is not beaten stays the best, or it makes no difference to what comes later. -/
theorem foldl_better_of_not_beats
    (rest : List (Nat × IndexDefinition)) :
    ∀ (best : Option (Nat × IndexDefinition)), (∀ q ∈ best, ¬ Beats q p) →
      rest.foldl better (some p) = some p ∨ rest.foldl better (some p) = rest.foldl better best := by
  induction rest with
  | nil =>
      intro best _
      exact .inl rfl
  | cons r rest ih =>
      intro best hbest
      rw [List.foldl_cons, List.foldl_cons]
      by_cases hr : Beats r p
      · -- the later index takes the place of both
        have hlater : better best r = some r := by
          cases best with
          | none =>
              rfl
          | some q =>
              exact better_of_beats (hr.of_not_beats (hbest q rfl))
        rw [better_of_beats hr, hlater]
        exact .inr rfl
      · rw [better_of_not_beats hr]
        refine ih (better best r) fun q hq => ?_
        rcases mem_of_better hq with hold | rfl
        · exact hbest q hold
        · exact hr

/-- A further index is the best of all, or the best is the same without it. -/
theorem foldl_better_insert
    (p : Nat × IndexDefinition)
    (first rest : List (Nat × IndexDefinition)) :
    (first ++ p :: rest).foldl better none = some p ∨
      (first ++ p :: rest).foldl better none = (first ++ rest).foldl better none := by
  rw [List.foldl_append, List.foldl_append, List.foldl_cons]
  cases first.foldl better none with
  | none =>
      refine foldl_better_of_not_beats rest none fun q hq => ?_
      cases hq
  | some q =>
      by_cases hp : Beats p q
      · rw [better_of_beats hp]
        refine foldl_better_of_not_beats rest (some q) fun q' hq' => ?_
        cases hq'
        exact hp.asymm
      · rw [better_of_not_beats hp]
        exact .inr rfl

theorem candidates_append
    (shape : Shape)
    (collection tenantField : String)
    (first rest : List IndexDefinition) :
    candidates shape collection tenantField (first ++ rest) =
      candidates shape collection tenantField first ++
        candidates shape collection tenantField rest := by
  simp only [candidates, List.filter_append, List.filterMap_append]

/-- When there is a best definition for a shape, a further one is the best, or it stays the best. -/
theorem exists_best_insert
    {shape : Shape}
    {collection tenantField : String}
    {first rest : List IndexDefinition}
    {score : Nat}
    {best : IndexDefinition}
    (h : (candidates shape collection tenantField (first ++ rest)).foldl better none =
      some (score, best))
    (definition : IndexDefinition) :
    ∃ score' best',
      (candidates shape collection tenantField (first ++ definition :: rest)).foldl better none =
        some (score', best') ∧
      (best' = best ∨ best' = definition) := by
  have hone : candidates shape collection tenantField [definition] = [] ∨
      ∃ score, candidates shape collection tenantField [definition] = [(score, definition)] := by
    unfold candidates
    by_cases hcollection : definition.collection = collection
    · cases hscore : shape.score? tenantField definition with
      | none =>
          exact .inl (by simp [hcollection, hscore])
      | some score =>
          exact .inr ⟨score, by simp [hcollection, hscore]⟩
    · exact .inl (by simp [hcollection])
  rw [candidates_append] at h
  rw [show first ++ definition :: rest = first ++ ([definition] ++ rest) from rfl,
    candidates_append, candidates_append]
  rcases hone with hnone | ⟨score', hserves⟩
  · rw [hnone]
    exact ⟨score, best, h, .inl rfl⟩
  · rw [hserves]
    rcases foldl_better_insert (score', definition)
        (candidates shape collection tenantField first)
        (candidates shape collection tenantField rest) with hbest | hsame
    · exact ⟨score', definition, hbest, .inr rfl⟩
    · exact ⟨score, best, hsame.trans h, .inl rfl⟩

end Plan

/-! ### Fields that a query does not name -/

/-- A query fixes a field, has a condition on it, or names it in its order. -/
def QuerySpec.Names
    (spec : QuerySpec)
    (tenantField field : String) :
    Prop :=
  field = tenantField ∨ (∃ c ∈ spec.filters, c.field = field) ∨ ∃ o ∈ spec.order, o.field = field

/-- A document has a key in an index if it has a value for every field. -/
theorem Document.exists_key_of_covers
    {tenantField : String}
    {d : Document}
    {fields : List SortField}
    (h : d.Covers tenantField fields) :
    ∃ key, fields.mapM (Index.partFor? tenantField d) = some key := by
  induction fields with
  | nil =>
      exact ⟨[], rfl⟩
  | cons f rest ih =>
      obtain ⟨hf, hrest⟩ := List.forall_mem_cons.1 h
      obtain ⟨v, hv⟩ := Option.isSome_iff_exists.1 hf
      obtain ⟨key, hkey⟩ := ih hrest
      refine ⟨⟨v, f.direction⟩ :: key, ?_⟩
      rw [List.mapM_cons, Index.partFor?_eq, hv, hkey]
      rfl

namespace Store

variable {s s' : Store} {spec : QuerySpec} {shape : Shape} {definition : IndexDefinition}
  {score : Nat}

/--
A document that is asked for by one index is asked for by another if it has a
value for each field of that index that the query does not name.
-/
theorem mem_matching_of_extra
    (hshape : Shape.ofSpec spec s.catalog.tenantField = .ok shape)
    (hscore : shape.score? s.catalog.tenantField definition = some score)
    {doc : Document}
    (hdoc : doc ∈ s.matching definition spec)
    {other : IndexDefinition}
    (hextra : ∀ f ∈ other.fields, ¬ spec.Names s.catalog.tenantField f.field →
      (doc.keyValue? s.catalog.tenantField f.field).isSome = true) :
    doc ∈ s.matching other spec := by
  have horder := covers_order hshape hscore hdoc
  obtain ⟨hstored, hcollection, -, htenant, hsatisfied⟩ := mem_matching_iff.1 hdoc
  have hcovers : doc.Covers s.catalog.tenantField other.fields := by
    intro f hf
    by_cases hnames : spec.Names s.catalog.tenantField f.field
    · rcases hnames with hfixed | ⟨c, hc, hfield⟩ | ⟨o, ho, hfield⟩
      · rw [Document.keyValue?, if_pos hfixed]
        rfl
      · obtain ⟨actual, -, hactual, -, -⟩ :=
          WhereClause.exists_of_satisfiedBy (hsatisfied c hc)
        rw [← hfield, hactual]
        rfl
      · rw [← hfield]
        exact horder o ho
    · exact hextra f hf hnames
  obtain ⟨key, hkey⟩ := Document.exists_key_of_covers hcovers
  exact mem_matching_iff.2 ⟨hstored, hcollection, ⟨key, hkey⟩, htenant, hsatisfied⟩

/-- Two indexes that serve a query differ in documents without a value for a further field only. -/
theorem mem_matching_iff_of_extra
    (hshape : Shape.ofSpec spec s.catalog.tenantField = .ok shape)
    (hscore : shape.score? s.catalog.tenantField definition = some score)
    {other : IndexDefinition}
    {score' : Nat}
    (hscore' : shape.score? s.catalog.tenantField other = some score')
    {doc : Document}
    (hextra : ∀ f ∈ definition.fields ++ other.fields,
      ¬ spec.Names s.catalog.tenantField f.field →
      (doc.keyValue? s.catalog.tenantField f.field).isSome = true) :
    doc ∈ s.matching other spec ↔ doc ∈ s.matching definition spec := by
  constructor
  · intro hdoc
    exact mem_matching_of_extra hshape hscore' hdoc fun f hf =>
      hextra f (List.mem_append_left _ hf)
  · intro hdoc
    exact mem_matching_of_extra hshape hscore hdoc fun f hf =>
      hextra f (List.mem_append_right _ hf)

theorem answer_congr
    (hdocuments : s'.documents = s.documents)
    (htenantField : s'.catalog.tenantField = s.catalog.tenantField)
    (definition : IndexDefinition)
    (spec : QuerySpec) :
    s'.answer definition spec = s.answer definition spec := by
  unfold answer matching documentsOf
  rw [hdocuments, htenantField]

/-- Without a limit an answer consists of all documents that are asked for. -/
theorem answer_perm
    (hlimit : spec.limit = none)
    (definition : IndexDefinition) :
    (s.answer definition spec).Perm (s.matching definition spec) := by
  rw [answer, hlimit]
  exact List.mergeSort_perm _ _

/-- A query is answered by the best of the indexes that serve its shape. -/
theorem Indexed.query_of_best
    (h : s.Indexed)
    (hshape : Shape.ofSpec spec s.catalog.tenantField = .ok shape)
    (hranges : shape.ranges.length ≤ 1)
    (hbest : (Plan.candidates shape spec.collection s.catalog.tenantField
      s.catalog.definitions).foldl Plan.better none = some (score, definition)) :
    s.plan spec = .ok (Plan.onIndex spec shape definition score) ∧
      s.query spec = .ok (s.answer definition spec) := by
  have hplan : s.plan spec = .ok (Plan.onIndex spec shape definition score) :=
    Plan.ofSpec_eq_ok_iff.2 ⟨shape, score, definition, hshape, hranges, hbest, rfl⟩
  obtain ⟨hdefinition, hcollection, hscore⟩ := Plan.mem_of_best hbest
  obtain ⟨index, hindex, rfl⟩ := List.mem_map.1 hdefinition
  obtain ⟨⟨name, index⟩, hentry, rfl⟩ := List.mem_map.1 hindex
  have hlisted := OrderedMap.get?_eq_some_iff.2 hentry
  obtain ⟨rfl, -⟩ := h.holds name index hlisted
  refine ⟨hplan, ?_⟩
  rw [query, hplan]
  exact h.runPlan_eq_answer ⟨Shape.isOf_of_ofSpec hshape, hranges, hlisted, hcollection,
    Shape.nonempty_layout hscore⟩

/-- A declared index is one definition more, somewhere among the others. -/
theorem exists_definitions_of_createIndex
    {stored : IndexDefinition}
    (h : (s.createIndex definition).1 = .ok stored) :
    ∃ first rest, s.catalog.definitions = first ++ rest ∧
      (s.createIndex definition).2.catalog.definitions = first ++ stored :: rest ∧
      (s.createIndex definition).2.catalog.tenantField = s.catalog.tenantField ∧
      (s.createIndex definition).2.documents = s.documents := by
  unfold createIndex at h ⊢
  split at h
  · cases h
  · next declared catalog hcreate =>
      cases h
      obtain ⟨-, hnone, rfl⟩ := Catalog.eq_of_create_eq_ok hcreate
      obtain ⟨first, rest, hvalues, hinsert⟩ := OrderedMap.exists_values_insert hnone
        (Index.ofDocuments stored s.catalog.tenantField s.documents.values)
      refine ⟨first.map Index.definition, rest.map Index.definition, ?_, ?_, rfl, rfl⟩
      · rw [Catalog.definitions, hvalues, List.map_append]
      · simp only [Catalog.definitions, hinsert, List.map_append, List.map_cons,
          Index.definition_ofDocuments]

end Store

namespace Database

/--
In every reachable database, when an index has been declared, a query without a
limit that succeeded before still does.  It is answered by the same index and
with the same list, or by the new index.  In each case the answer consists of
the documents that are asked for and have a key in the index.  Only a document
without a value for a field of one of the two indexes that the query does not
name can be in one of the two answers alone.
-/
theorem Reachable.query_after_createIndex
    {db : Database}
    (h : Reachable db)
    {definition stored : IndexDefinition}
    (hcreate : (db.createIndex definition).1 = .ok stored)
    {spec : QuerySpec}
    (hlimit : spec.limit = none)
    {docs : List Document}
    (hquery : db.store.query spec = .ok docs) :
    ∃ plan plan' before after docs',
      db.store.plan spec = .ok plan ∧ plan.index = before.name ∧
      before ∈ db.store.catalog.definitions ∧
      (db.createIndex definition).2.store.plan spec = .ok plan' ∧ plan'.index = after.name ∧
      (after = before ∧ docs' = docs ∨ after = stored) ∧
      (db.createIndex definition).2.store.query spec = .ok docs' ∧
      docs.Perm (db.store.matching before spec) ∧
      docs'.Perm (db.store.matching after spec) ∧
      ∀ doc : Document,
        (∀ f ∈ before.fields ++ after.fields,
          ¬ spec.Names db.store.catalog.tenantField f.field →
          (doc.keyValue? db.store.catalog.tenantField f.field).isSome = true) →
        (doc ∈ docs' ↔ doc ∈ docs) := by
  have hindexed := h.indexed
  have hindexed' := (h.step (.createIndex definition)).indexed
  obtain ⟨_, _, _, _, _, _, hplanned, _⟩ := hindexed.exists_plan_of_query hquery
  obtain ⟨shape, score, before, hshape, hranges, hbest, -⟩ := Plan.ofSpec_eq_ok_iff.1 hplanned
  obtain ⟨hplan, hanswer⟩ := hindexed.query_of_best hshape hranges hbest
  obtain rfl : docs = db.store.answer before spec := Except.ok.inj (hquery.symm.trans hanswer)
  obtain ⟨hlisted, -, hscore⟩ := Plan.mem_of_best hbest
  obtain ⟨first, rest, hold, hnew, htenantField, hdocuments⟩ :=
    Store.exists_definitions_of_createIndex (s := db.store) hcreate
  rw [hold] at hbest
  obtain ⟨score', after, hbest', hafter⟩ := Plan.exists_best_insert hbest stored
  obtain ⟨-, -, hscore'⟩ := Plan.mem_of_best hbest'
  have hshape' := hshape
  rw [← hnew, ← htenantField] at hbest'
  rw [← htenantField] at hshape'
  obtain ⟨hplan', hanswer'⟩ := Store.Indexed.query_of_best hindexed' hshape' hranges hbest'
  have hsame : (db.createIndex definition).2.store.answer after spec =
      db.store.answer after spec :=
    Store.answer_congr hdocuments htenantField after spec
  have hperm := Store.answer_perm (s := db.store) hlimit before
  have hperm' := Store.answer_perm (s := db.store) hlimit after
  refine ⟨_, _, before, after, _, hplan, rfl, hlisted, hplan', rfl, ?_,
    hanswer'.trans (congrArg _ hsame), hperm, hperm', ?_⟩
  · exact hafter.imp_left fun heq => ⟨heq, by rw [heq]⟩
  · intro doc hextra
    rw [hperm.mem_iff, hperm'.mem_iff]
    exact Store.mem_matching_iff_of_extra hshape hscore hscore' hextra

/-- The orders that cost something. -/
def costly : QuerySpec :=
  { costlyByItem with order := [], limit := none }

/-- An index of the orders by their totals, the other way round. -/
def byCost : IndexDefinition :=
  ⟨"by_cost", "orders", [⟨"total", .asc⟩, ⟨"item", .desc⟩]⟩

/-- A new index turns the answer round, and the documents are the same. -/
theorem costly_after_byCost :
    Reachable (fresh.run orderTotals) ∧
    ∃ stored docs docs',
      ((fresh.run orderTotals).createIndex byCost).1 = .ok stored ∧
      (fresh.run orderTotals).store.query costly = .ok docs ∧
      docs.map (fun doc => doc.path.text) = ["orders/1", "orders/3", "orders/2"] ∧
      ((fresh.run orderTotals).createIndex byCost).2.store.query costly = .ok docs' ∧
      docs'.map (fun doc => doc.path.text) = ["orders/2", "orders/3", "orders/1"] ∧
      ∃ before after : IndexDefinition, ∀ doc : Document,
        (∀ f ∈ before.fields ++ after.fields, ¬ costly.Names "tenantId" f.field →
          (doc.keyValue? "tenantId" f.field).isSome = true) →
        (doc ∈ docs' ↔ doc ∈ docs) := by
  have hreachable : Reachable (fresh.run orderTotals) := reachable_fresh.run orderTotals
  obtain ⟨stored, hcreate⟩ : ∃ stored,
      ((fresh.run orderTotals).createIndex byCost).1 = .ok stored :=
    ⟨_, rfl⟩
  obtain ⟨docs, hquery, hpaths⟩ : ∃ docs,
      (fresh.run orderTotals).store.query costly = .ok docs ∧
      docs.map (fun doc => doc.path.text) = ["orders/1", "orders/3", "orders/2"] :=
    ⟨_, rfl, by decide +kernel⟩
  have hturned :
      (((fresh.run orderTotals).createIndex byCost).2.store.query costly).toOption.map
        (fun docs => docs.map fun doc => doc.path.text) =
        some ["orders/2", "orders/3", "orders/1"] := by
    decide +kernel
  obtain ⟨-, -, before, after, docs', -, -, -, -, -, -, hquery', -, -, hsame⟩ :=
    hreachable.query_after_createIndex hcreate rfl hquery
  rw [hquery'] at hturned
  exact ⟨hreachable, stored, docs, docs', hcreate, hquery, hpaths, hquery',
    Option.some.inj hturned, before, after, hsame⟩

/-- The orders in a state. -/
def openOrders : QuerySpec where
  collection := "orders"
  filters := [⟨"state", .eq, .string "open"⟩]
  order := []
  limit := none
  tenant := "acme"

/-- An index of the orders by their state, which has a further field. -/
def byBoth : IndexDefinition :=
  ⟨"by_both", "orders", [⟨"state", .desc⟩, ⟨"total", .asc⟩]⟩

/-- A new index with a further field hides the orders that lack the field. -/
theorem byBoth_hides_openOrders :
    Reachable (fresh.run orderStates) ∧
    ((fresh.run orderStates).createIndex byBoth).1.isOk = true ∧
    (∃ doc, (fresh.run orderStates).store.query openOrders = .ok [doc]) ∧
    ((fresh.run orderStates).createIndex byBoth).2.store.query openOrders = .ok [] :=
  ⟨reachable_fresh.run orderStates, by decide +kernel, ⟨_, rfl⟩, rfl⟩

end Database
end DocumentStore
