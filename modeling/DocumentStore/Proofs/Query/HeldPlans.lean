import DocumentStore.Proofs.Query.Answer
import DocumentStore.Proofs.Store.Tenancy
import Mathlib.Data.List.TakeWhile

/-!
# Plans that are held while indexes change

A plan names its index, and the name may be taken by another index before the
plan is carried out.  Then the plan fails if there is no index under the name.
Otherwise it still leads to documents of its tenant only, since every index has
the tenant first; they are of the collection of the index that is there now.
They are of the collection of the query and satisfy its conditions if that index
is of the same collection and has the fields of the conditions at the positions
at which the plan checks them, as the index of the plan does until it is removed.
-/

namespace DocumentStore

/-- A scan yields entries of the tree whose keys begin as they should. -/
theorem Tree.mem_of_mem_scan
    {t : Tree}
    {start : Key}
    {lower upper : Option KeyPart}
    {e : Key × DocumentPath}
    (h : e ∈ t.scan start lower upper) :
    e ∈ t.toList ∧ start <+: e.1 := by
  unfold scan at h
  obtain ⟨node, hnode, hpath⟩ := List.mem_flatMap.1 h
  obtain ⟨path, hmem, rfl⟩ := List.mem_map.1 hpath
  have hwithin := List.mem_takeWhile_imp hnode
  unfold within at hwithin
  rw [Bool.and_eq_true, List.isPrefixOf_iff_prefix] at hwithin
  have hlisted : node ∈ t.nodes :=
    (List.dropWhile_sublist _).mem ((List.takeWhile_sublist _).mem hnode)
  exact ⟨List.mem_flatMap.2 ⟨node, hlisted, hpath⟩, hwithin.1⟩

/--
An index of the same collection has the fields of the conditions of a query
where another index has them.
-/
structure IndexDefinition.StandsInFor
    (now planned : IndexDefinition)
    (spec : QuerySpec) :
    Prop where
  collection : now.collection = planned.collection
  positions : ∀ c ∈ spec.filters,
    now.fields.findIdx? (fun f => f.field = c.field) =
      planned.fields.findIdx? fun f => f.field = c.field

theorem IndexDefinition.StandsInFor.refl
    (planned : IndexDefinition)
    (spec : QuerySpec) :
    planned.StandsInFor planned spec :=
  ⟨rfl, fun _ _ => rfl⟩

theorem IndexDefinition.StandsInFor.checkOf?_eq
    {now planned : IndexDefinition}
    {spec : QuerySpec}
    (h : now.StandsInFor planned spec)
    {c : WhereClause}
    (hc : c ∈ spec.filters) :
    Plan.checkOf? now.fields c = Plan.checkOf? planned.fields c := by
  unfold Plan.checkOf?
  rw [h.positions c hc]

namespace Catalog

variable {declared : OrderedMap String IndexDefinition} {definition : IndexDefinition}
  {name : String}

/-- Declaring an index leaves those that are declared. -/
theorem get?_declaring
    (h : declared.get? name = some definition)
    (tenantField : String)
    (new : IndexDefinition) :
    (declaring declared tenantField new).get? name = some definition := by
  unfold declaring
  split
  · exact h
  · next normal hnormal =>
      split
      · exact h
      · next hfree =>
          rw [OrderedMap.get?_insert, if_neg ?_]
          · exact h
          · rintro rfl
            rw [h] at hfree
            cases hfree

theorem get?_removing
    (h : declared.get? name = some definition)
    {other : String}
    (hne : name ≠ other) :
    (removing declared other).get? name = some definition := by
  unfold removing
  split
  · rw [OrderedMap.get?_erase, if_neg hne]
    exact h
  · exact h

end Catalog

namespace Store

/-- A stored document is one that a query asks for, whether or not it has a key in an index. -/
def Wanted
    (s : Store)
    (spec : QuerySpec)
    (doc : Document) :
    Prop :=
  doc ∈ s.documents.values ∧ doc.tenant = spec.tenant ∧ doc.collection = spec.collection ∧
    ∀ c ∈ spec.filters, c.satisfiedBy s.catalog.tenantField doc = true

variable {s : Store} {spec : QuerySpec} {shape : Shape} {planned index : Index} {score : Nat}

/-- A document that a plan leads to has an entry in the index under the name of the plan. -/
theorem exists_entry_of_runPlan
    {plan : Plan}
    {docs : List Document}
    (h : s.runPlan plan = .ok docs)
    {doc : Document}
    (hdoc : doc ∈ docs) :
    plan.unsatisfiable = false ∧
      ∃ index, s.catalog.indexes.get? plan.index = some index ∧
        ∃ e ∈ index.tree.toList, plan.window.start <+: e.1 ∧ plan.admits e.1 = true ∧
          s.find? plan.tenant e.2 = some doc := by
  unfold runPlan at h
  split at h
  · cases h
    cases hdoc
  · next hsatisfiable =>
      split at h
      · cases h
      · next index hindex =>
          cases h
          obtain ⟨e, hadmitted, hfind⟩ :=
            List.mem_filterMap.1 ((takeUpTo_sublist _ _).mem hdoc)
          obtain ⟨hscanned, hadmits⟩ := List.mem_filter.1 hadmitted
          obtain ⟨he, hstart⟩ := Tree.mem_of_mem_scan hscanned
          exact ⟨Bool.eq_false_iff.2 hsatisfiable, index, hindex, e, he, hstart, hadmits, hfind⟩

theorem error_of_runPlan
    {plan : Plan}
    {e : IndexError}
    (h : s.runPlan plan = .error e) :
    e = .indexNotFound plan.index ∧ s.catalog.indexes.get? plan.index = none := by
  unfold runPlan at h
  split at h
  · cases h
  · split at h
    · next hnone =>
        exact ⟨(Except.error.inj h).symm, hnone⟩
    · cases h

/-- The document to which an entry leads in the tenant that the key begins with has that entry. -/
theorem Indexed.entryFor?_of_find?
    (h : s.Indexed)
    {name tenant : String}
    (hindex : s.catalog.indexes.get? name = some index)
    {e : Key × DocumentPath}
    (he : e ∈ index.tree.toList)
    {part : KeyPart}
    (hfirst : e.1[0]? = some part)
    (htenant : part.value = .string tenant)
    {doc : Document}
    (hfind : s.find? tenant e.2 = some doc) :
    Index.entryFor? index.definition s.catalog.tenantField doc = some e ∧
      doc.collection = index.definition.collection := by
  obtain ⟨-, hholds⟩ := h.holds name index hindex
  obtain ⟨other, hstored, hcollection, hentry⟩ := (hholds.entries e).1 he
  obtain ⟨key, hkey, rfl⟩ := Option.map_eq_some_iff.1 hentry
  obtain ⟨direction, hpart⟩ := Index.getElem?_zero_of_keyFor? hholds.tenantFirst hkey
  obtain rfl := Option.some.inj (hfirst.symm.trans hpart)
  obtain ⟨place, hplace⟩ := Documents.mem_values_iff.1 hstored
  rw [(h.placed place other hplace).key_eq, KeyValue.string.inj htenant] at hplace
  obtain rfl : other = doc := Option.some.inj (hplace.symm.trans hfind)
  exact ⟨hentry, hcollection⟩

/--
A plan that was made with another index under its name leads to stored documents
of its tenant, of the collection of the index that is there now; if that index
stands in for the other, they satisfy the conditions of the query.
-/
theorem Indexed.wanted_of_runPlan
    (h : s.Indexed)
    (hs : shape.IsOf spec s.catalog.tenantField)
    (l : shape.Layout s.catalog.tenantField planned.definition.fields)
    {docs : List Document}
    (hrun : s.runPlan (Plan.onIndex spec shape planned.definition score) = .ok docs)
    {doc : Document}
    (hdoc : doc ∈ docs) :
    doc ∈ s.documents.values ∧ doc.tenant = spec.tenant ∧
      ∃ now, s.catalog.indexes.get? planned.definition.name = some now ∧
        doc.collection = now.definition.collection ∧
        (now.definition.StandsInFor planned.definition spec →
          ∀ c ∈ spec.filters, c.satisfiedBy s.catalog.tenantField doc = true) := by
  obtain ⟨hsatisfiable, now, hnow, e, he, ⟨tail, hkey⟩, hadmits, hfind⟩ :=
    exists_entry_of_runPlan hrun hdoc
  have hfirst : e.1[0]? = some ⟨.string spec.tenant, l.first.direction⟩ := by
    rw [← hkey, Plan.start_onIndex l]
    rfl
  obtain ⟨hentry, hcollection⟩ := h.entryFor?_of_find? hnow he hfirst rfl hfind
  have htenant : doc.tenant = spec.tenant := (h.placed _ doc hfind).tenant
  refine ⟨Documents.mem_values_iff.2 ⟨_, hfind⟩, htenant, now, hnow, hcollection, ?_⟩
  intro hstands
  refine (hs.satisfied_iff htenant).2 fun c hc => ?_
  obtain ⟨key, hkeyFor, rfl⟩ := Option.map_eq_some_iff.1 hentry
  -- The plan is satisfiable, so it has a check for each of its conditions.
  have hsome : (Plan.checkOf? planned.definition.fields c).isSome = true := by
    have hall := List.any_eq_false.1 hsatisfiable c hc
    rwa [Bool.not_eq_true, Option.isNone_eq_false_iff] at hall
  obtain ⟨check, hcheck⟩ := Option.isSome_iff_exists.1 hsome
  have hfilter : c ∈ spec.filters := by
    rw [hs.clauses] at hc
    exact (List.mem_filter.1 hc).1
  have hchecked := List.all_eq_true.1 hadmits check (List.mem_filterMap.2 ⟨c, hc, hcheck⟩)
  rw [← hstands.checkOf?_eq hfilter] at hcheck
  rw [← Plan.admits_of_checkOf? hkeyFor hcheck]
  exact hchecked

/-- A move of the store declares no index, and does not rename the tenant field. -/
theorem Move.declared_eq
    {s s' : Store}
    (h : Move s s') :
    s'.catalog.declared = s.catalog.declared ∧
      s'.catalog.tenantField = s.catalog.tenantField := by
  cases h with
  | replies =>
      exact ⟨rfl, rfl⟩
  | tick =>
      exact ⟨rfl, rfl⟩
  | change =>
      exact ⟨Catalog.declared_follow _ _, rfl⟩

end Store

namespace Database

/-- An action does not rename the tenant field. -/
theorem tenantField_after
    (db : Database)
    (action : Action) :
    (db.after action).store.catalog.tenantField = db.store.catalog.tenantField := by
  refine preserves_store_after
    (motive := fun s => s.catalog.tenantField = db.store.catalog.tenantField) ?_ ?_ ?_ rfl action
  · intro s s' hmove hs
    exact hmove.declared_eq.2.trans hs
  · intro s definition hs
    obtain ⟨catalog, hstore, hfield, -⟩ := s.exists_catalog_of_createIndex definition
    rw [hstore]
    exact hfield.trans hs
  · intro s name hs
    obtain ⟨catalog, hstore, hfield, -⟩ := s.exists_catalog_of_dropIndex name
    rw [hstore]
    exact hfield.trans hs

/-- The tenant field keeps its name. -/
theorem tenantField_run
    (db : Database)
    (history : List Action) :
    (db.run history).store.catalog.tenantField = db.store.catalog.tenantField := by
  induction history generalizing db with
  | nil =>
      rfl
  | cons action rest ih =>
      exact (ih (db.after action)).trans (db.tenantField_after action)

/-- An action other than its removal leaves an index with its definition. -/
theorem declared_after
    {db : Database}
    {name : String}
    {definition : IndexDefinition}
    (h : db.store.catalog.declared.get? name = some definition)
    {action : Action}
    (hkept : .dropIndex name ≠ action) :
    (db.after action).store.catalog.declared.get? name = some definition := by
  by_cases hindexing : action.isIndexing = true
  · cases action with
    | createIndex new =>
        obtain ⟨catalog, hstore, -, hdeclared⟩ := db.store.exists_catalog_of_createIndex new
        change (db.store.createIndex new).2.catalog.declared.get? name = some definition
        rw [hstore, hdeclared]
        exact Catalog.get?_declaring h _ new
    | dropIndex other =>
        obtain ⟨catalog, hstore, -, hdeclared⟩ := db.store.exists_catalog_of_dropIndex other
        change (db.store.dropIndex other).2.catalog.declared.get? name = some definition
        rw [hstore, hdeclared]
        exact Catalog.get?_removing h fun hsame => hkept (congrArg _ hsame)
    | _ =>
        cases hindexing
  · refine (db.moves_after (Bool.eq_false_iff.2 hindexing)).preserves
      (P := fun s => s.catalog.declared.get? name = some definition) ?_ h
    intro s s' hmove hs
    rw [hmove.declared_eq.1]
    exact hs

theorem declared_run
    {db : Database}
    {name : String}
    {definition : IndexDefinition}
    (h : db.store.catalog.declared.get? name = some definition)
    {history : List Action}
    (hkept : .dropIndex name ∉ history) :
    (db.run history).store.catalog.declared.get? name = some definition := by
  induction history generalizing db with
  | nil =>
      exact h
  | cons action rest ih =>
      obtain ⟨hne, hrest⟩ := List.ne_and_not_mem_of_not_mem_cons hkept
      exact ih (declared_after h hne) hrest

/--
A plan is made in a reachable database and carried out after any history.  Then
it fails because there is no index under its name, or it leads to stored
documents of its tenant, of the collection of the index that is under the name
now.  If that index is of the collection of the query and has the fields of its
conditions where the index had them with which the plan was made, these are
documents that the query asks for.  So they are if the index was never removed,
and then the plan does not fail.
-/
theorem Reachable.held_plan_leads_to_wanted
    {db : Database}
    (h : Reachable db)
    {spec : QuerySpec}
    {plan : Plan}
    (hplan : db.store.plan spec = .ok plan)
    (history : List Action) :
    let s := (db.run history).store
    ∃ planned, db.store.catalog.indexes.get? plan.index = some planned ∧
      (s.runPlan plan = .error (.indexNotFound plan.index) ∧
          s.catalog.indexes.get? plan.index = none ∨
        ∃ docs, s.runPlan plan = .ok docs ∧ ∀ doc ∈ docs,
          doc ∈ s.documents.values ∧ doc.tenant = spec.tenant ∧
            ∃ now, s.catalog.indexes.get? plan.index = some now ∧
              doc.collection = now.definition.collection ∧
              (now.definition.StandsInFor planned.definition spec → s.Wanted spec doc)) ∧
      (.dropIndex plan.index ∉ history →
        ∃ docs, s.runPlan plan = .ok docs ∧ ∀ doc ∈ docs, s.Wanted spec doc) := by
  intro s
  obtain ⟨shape, planned, score, hplanned, rfl⟩ := h.indexed.exists_of_plan hplan
  obtain ⟨l⟩ := hplanned.layout
  have hfield : s.catalog.tenantField = db.store.catalog.tenantField := db.tenantField_run history
  have hs := hplanned.isOf
  rw [← hfield] at hs l
  have hkept : .dropIndex planned.definition.name ∉ history →
      (s.catalog.indexes.get? planned.definition.name).map Index.definition =
        some planned.definition := by
    intro hkept
    rw [← Catalog.get?_declared]
    refine declared_run ?_ hkept
    rw [Catalog.get?_declared, hplanned.listed]
    rfl
  refine ⟨planned, hplanned.listed, ?_⟩
  cases hrun : s.runPlan (Plan.onIndex spec shape planned.definition score) with
  | error e =>
      obtain ⟨rfl, hnone⟩ := Store.error_of_runPlan hrun
      refine ⟨.inl ⟨rfl, hnone⟩, fun hnever => ?_⟩
      have hnow := hkept hnever
      have hgone : s.catalog.indexes.get? planned.definition.name = none := hnone
      rw [hgone] at hnow
      cases hnow
  | ok docs =>
      have hfound : ∀ doc ∈ docs, doc ∈ s.documents.values ∧ doc.tenant = spec.tenant ∧
          ∃ now, s.catalog.indexes.get? planned.definition.name = some now ∧
            doc.collection = now.definition.collection ∧
            (now.definition.StandsInFor planned.definition spec → s.Wanted spec doc) := by
        intro doc hdoc
        obtain ⟨hstored, htenant, now, hnow, hcollection, hsatisfied⟩ :=
          (h.run history).indexed.wanted_of_runPlan hs l hrun hdoc
        refine ⟨hstored, htenant, now, hnow, hcollection, fun hstands => ?_⟩
        exact ⟨hstored, htenant,
          hcollection.trans (hstands.collection.trans hplanned.collection), hsatisfied hstands⟩
      refine ⟨.inr ⟨docs, rfl, hfound⟩, fun hnever => ⟨docs, rfl, fun doc hdoc => ?_⟩⟩
      obtain ⟨-, -, now, hnow, -, hwanted⟩ := hfound doc hdoc
      have hsame := hkept hnever
      rw [hnow] at hsame
      refine hwanted ?_
      rw [Option.some.inj hsame]
      exact .refl _ _

/-- The open orders of a tenant. -/
def openOnes : QuerySpec where
  collection := "orders"
  filters := [⟨"state", .eq, .string "open"⟩]
  order := []
  limit := none
  tenant := "acme"

/-- The index of orders by their state is declared. -/
def sorted : Database := fresh.run [.createIndex byState]

/-- The index is declared again with a further field, and two orders come in. -/
def widening : List Action :=
  let moment : Moment := ⟨0, fun _ => ⟨7⟩⟩
  [.dropIndex "by_state",
   .createIndex ⟨"by_state", "orders", [⟨"state", .desc⟩, ⟨"cost", .asc⟩]⟩,
   .create moment "acme" "ann" "orders/1"
      (.object [("cost", .ofNat 3), ("state", .string "open")]) none,
   .create moment "acme" "ann" "orders/2"
      (.object [("cost", .ofNat 4), ("state", .string "done")]) none]

/-- The name of the index goes to an index of invoices by their owner. -/
def reassigning : List Action :=
  let moment : Moment := ⟨0, fun _ => ⟨7⟩⟩
  [.dropIndex "by_state",
   .createIndex ⟨"by_state", "invoices", [⟨"owner", .desc⟩]⟩,
   .create moment "acme" "ann" "invoices/1"
      (.object [("owner", .string "open"), ("state", .string "paid")]) none]

/-- What the plan for the open orders leads to after some history. -/
def openOnesAfter (history : List Action) : Option (List Document) := do
  let plan ← (sorted.store.plan openOnes).toOption
  ((sorted.run history).store.runPlan plan).toOption

theorem exists_plan_of_openOnesAfter
    {history : List Action}
    {docs : List Document}
    (h : openOnesAfter history = some docs) :
    ∃ plan, sorted.store.plan openOnes = .ok plan ∧
      (sorted.run history).store.runPlan plan = .ok docs := by
  unfold openOnesAfter at h
  obtain ⟨plan, hplan, hrun⟩ := Option.bind_eq_some_iff.1 h
  refine ⟨plan, ?_, ?_⟩
  · cases hresult : sorted.store.plan openOnes <;> simp_all [Except.toOption]
  · cases hresult : (sorted.run history).store.runPlan plan <;> simp_all [Except.toOption]

/-- With the wider index the plan still leads to the open order. -/
theorem open_order_after_widening :
    Reachable sorted ∧
    ∃ plan docs, sorted.store.plan openOnes = .ok plan ∧
      (sorted.run widening).store.runPlan plan = .ok docs ∧
      docs.map (fun doc => doc.path.text) = ["orders/1"] ∧
      ∀ doc ∈ docs, (sorted.run widening).store.Wanted openOnes doc := by
  have hreachable : Reachable sorted := reachable_fresh.run [.createIndex byState]
  have htexts : (openOnesAfter widening).map (fun docs => docs.map fun doc => doc.path.text) =
      some ["orders/1"] := by decide +kernel
  obtain ⟨docs, hdocs, htexts⟩ := Option.map_eq_some_iff.1 htexts
  obtain ⟨plan, hplan, hrun⟩ := exists_plan_of_openOnesAfter hdocs
  obtain ⟨planned, hplanned, ⟨herror, -⟩ | ⟨docs', hrun', hwanted⟩, -⟩ :=
    hreachable.held_plan_leads_to_wanted hplan widening
  · rw [hrun] at herror
    cases herror
  · obtain rfl : docs = docs' := Except.ok.inj (hrun.symm.trans hrun')
    refine ⟨hreachable, plan, docs, hplan, hrun, htexts, fun doc hdoc => ?_⟩
    obtain ⟨-, -, now, hnow, -, hstands⟩ := hwanted doc hdoc
    have hindex : (sorted.store.plan openOnes).toOption.map Plan.index = some "by_state" := by
      decide +kernel
    have hbefore : (sorted.store.catalog.indexes.get? "by_state").map Index.definition =
        some ⟨"by_state", "orders", [⟨"tenantId", .asc⟩, ⟨"state", .desc⟩]⟩ := by decide +kernel
    have hafter : ((sorted.run widening).store.catalog.indexes.get? "by_state").map
        Index.definition = some ⟨"by_state", "orders",
          [⟨"tenantId", .asc⟩, ⟨"state", .desc⟩, ⟨"cost", .asc⟩]⟩ := by decide +kernel
    rw [hplan] at hindex
    have hname : plan.index = "by_state" := Option.some.inj hindex
    rw [hname] at hplanned hnow
    rw [hplanned] at hbefore
    rw [hnow] at hafter
    refine hstands ?_
    rw [Option.some.inj hbefore, Option.some.inj hafter]
    exact ⟨rfl, by decide +kernel⟩

/-- With an index of invoices under its name the plan leads to an invoice. -/
theorem invoice_after_reassigning :
    Reachable sorted ∧
    ∃ plan doc, sorted.store.plan openOnes = .ok plan ∧
      (sorted.run reassigning).store.runPlan plan = .ok [doc] ∧
      doc.collection = "invoices" ∧
      ¬ (sorted.run reassigning).store.Wanted openOnes doc := by
  have hcollections : (openOnesAfter reassigning).map (fun docs => docs.map Document.collection) =
      some ["invoices"] := by decide +kernel
  obtain ⟨docs, hdocs, hcollections⟩ := Option.map_eq_some_iff.1 hcollections
  obtain ⟨plan, hplan, hrun⟩ := exists_plan_of_openOnesAfter hdocs
  obtain ⟨doc, rfl, hcollection⟩ := List.map_eq_singleton_iff.1 hcollections
  refine ⟨reachable_fresh.run [.createIndex byState], plan, doc, hplan, hrun, hcollection, ?_⟩
  rintro ⟨-, -, hsame, -⟩
  rw [hcollection] at hsame
  exact absurd hsame (by decide)

end Database
end DocumentStore
