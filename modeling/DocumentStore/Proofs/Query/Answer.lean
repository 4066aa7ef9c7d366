import DocumentStore.Proofs.Gateway.Indexes
import DocumentStore.Proofs.Query.Window

/-!
# The answer of a query

What a query asks for can be said without windows and scans: of the stored
documents of its tenant and collection, take those that have a key in the index
and satisfy every condition, sort them by their keys and then by their paths,
and keep the first ones up to the limit.  In a store whose indexes hold its
documents, the plan leads to exactly that list.
-/

namespace DocumentStore

namespace Index

variable (definition : IndexDefinition) (tenantField : String)

/-- The place of a document in an index: its key, and then its path. -/
def placeOf (doc : Document) : Key × DocumentPath :=
  ((keyFor? definition tenantField doc).getD [], doc.path)

/-- Whether a document comes no later than another in an index. -/
def notAfter (d e : Document) : Bool :=
  let place := placeOf definition tenantField
  (((place d).1.order (place e).1).then (compare (place d).2 (place e).2)).isLE

variable {definition tenantField}

theorem placeOf_of_entryFor?
    {doc : Document}
    {e : Key × DocumentPath}
    (h : entryFor? definition tenantField doc = some e) :
    placeOf definition tenantField doc = e := by
  obtain ⟨key, hkey, rfl⟩ := Option.map_eq_some_iff.1 h
  rw [placeOf, hkey]
  rfl

/-- Places go in the directions of the fields. -/
theorem follows_placeOf (doc : Document) :
    Key.Follows definition.directionAt (placeOf definition tenantField doc).1 := by
  unfold placeOf
  cases hkey : keyFor? definition tenantField doc with
  | none =>
      exact .nil _
  | some key =>
      exact follows_of_keyFor? hkey

theorem notAfter_eq (d e : Document) :
    notAfter definition tenantField d e =
      (Tree.entryOrder (placeOf definition tenantField d)
        (placeOf definition tenantField e)).isLE := by
  unfold notAfter
  dsimp only
  rw [Key.order_eq_compare (follows_placeOf d) (follows_placeOf e)]
  rfl

theorem notAfter_trans
    (a b c : Document)
    (hab : notAfter definition tenantField a b = true)
    (hbc : notAfter definition tenantField b c = true) :
    notAfter definition tenantField a c = true := by
  rw [notAfter_eq] at hab hbc ⊢
  exact Std.TransCmp.isLE_trans hab hbc

/-- Of two documents one comes no later than the other. -/
theorem notAfter_total (a b : Document) :
    (notAfter definition tenantField a b || notAfter definition tenantField b a) = true := by
  rw [notAfter_eq, notAfter_eq, Bool.or_eq_true]
  by_cases hle : (Tree.entryOrder (placeOf definition tenantField a)
      (placeOf definition tenantField b)).isLE = true
  · exact .inl hle
  · right
    rw [Std.OrientedCmp.lt_of_not_isLE hle]
    rfl

theorem placeOf_eq_of_notAfter
    {a b : Document}
    (hab : notAfter definition tenantField a b = true)
    (hba : notAfter definition tenantField b a = true) :
    placeOf definition tenantField a = placeOf definition tenantField b := by
  rw [notAfter_eq] at hab hba
  exact Std.LawfulEqCmp.eq_of_compare (Std.OrientedCmp.isLE_antisymm hab hba)

end Index

namespace Store

/-- The documents that a query asks for, as far as they have a key in an index. -/
def matching
    (s : Store)
    (definition : IndexDefinition)
    (spec : QuerySpec) :
    List Document :=
  (s.documentsOf spec.collection).filter fun d =>
    d.tenant = spec.tenant &&
      (Index.keyFor? definition s.catalog.tenantField d).isSome &&
      spec.filters.all fun c => c.satisfiedBy s.catalog.tenantField d

/-- The documents that a query asks for, in the order of an index, and only the first with a limit. -/
def answer
    (s : Store)
    (definition : IndexDefinition)
    (spec : QuerySpec) :
    List Document :=
  let all := (s.matching definition spec).mergeSort
    (Index.notAfter definition s.catalog.tenantField)
  match spec.limit with
  | none => all
  | some limit => all.take limit.toNat

/-- A query is planned with a shape of it and an index of its collection that serves the shape. -/
structure PlannedWith
    (s : Store)
    (spec : QuerySpec)
    (shape : Shape)
    (index : Index) :
    Prop where
  isOf : shape.IsOf spec s.catalog.tenantField
  ranges : shape.ranges.length ≤ 1
  listed : s.catalog.indexes.get? index.definition.name = some index
  collection : index.definition.collection = spec.collection
  layout : Nonempty (shape.Layout s.catalog.tenantField index.definition.fields)

variable {s : Store} {spec : QuerySpec} {shape : Shape} {index : Index}

/-- Every plan is made with the shape of its query and an index that has a score for it. -/
theorem Indexed.exists_scored_of_plan
    {plan : Plan}
    (h : s.Indexed)
    (hplan : s.plan spec = .ok plan) :
    ∃ shape index score, s.PlannedWith spec shape index ∧
      Shape.ofSpec spec s.catalog.tenantField = .ok shape ∧
      shape.score? s.catalog.tenantField index.definition = some score ∧
      plan = Plan.onIndex spec shape index.definition score := by
  obtain ⟨shape, definition, score, hshape, hranges, hmem, hcollection, hscore, rfl⟩ :=
    Plan.eq_onIndex_of_ofSpec hplan
  obtain ⟨index, hindex, rfl⟩ := List.mem_map.1 hmem
  obtain ⟨⟨name, index⟩, hentry, rfl⟩ := List.mem_map.1 hindex
  have hlisted := OrderedMap.get?_eq_some_iff.2 hentry
  obtain ⟨hname, -⟩ := h.holds name index hlisted
  subst hname
  exact ⟨shape, index, score,
    ⟨Shape.isOf_of_ofSpec hshape, hranges, hlisted, hcollection, Shape.nonempty_layout hscore⟩,
    hshape, hscore, rfl⟩

theorem Indexed.exists_of_plan
    {plan : Plan}
    (h : s.Indexed)
    (hplan : s.plan spec = .ok plan) :
    ∃ shape index score, s.PlannedWith spec shape index ∧
      plan = Plan.onIndex spec shape index.definition score := by
  obtain ⟨shape, index, score, hplanned, -, -, heq⟩ := h.exists_scored_of_plan hplan
  exact ⟨shape, index, score, hplanned, heq⟩

theorem mem_matching_iff
    {definition : IndexDefinition}
    {doc : Document} :
    doc ∈ s.matching definition spec ↔
      doc ∈ s.documents.values ∧ doc.collection = spec.collection ∧
        (∃ key, Index.keyFor? definition s.catalog.tenantField doc = some key) ∧
          doc.tenant = spec.tenant ∧
            ∀ c ∈ spec.filters, c.satisfiedBy s.catalog.tenantField doc = true := by
  simp only [matching, documentsOf, List.mem_filter, decide_eq_true_eq, Bool.and_eq_true,
    List.all_eq_true, Option.isSome_iff_exists]
  tauto

/-- No document is asked for twice. -/
theorem Indexed.nodup_matching
    (h : s.Indexed)
    (definition : IndexDefinition)
    (spec : QuerySpec) :
    (s.matching definition spec).Nodup := by
  refine ((h.pairwise_values.filter _).filter _).imp ?_
  rintro d d' hne rfl
  exact hne rfl

/-- A document that is asked for is found at its path. -/
theorem Indexed.find?_of_matching
    (h : s.Indexed)
    {definition : IndexDefinition}
    {doc : Document}
    (hdoc : doc ∈ s.matching definition spec) :
    s.find? spec.tenant doc.path = some doc := by
  obtain ⟨hstored, -, -, htenant, -⟩ := mem_matching_iff.1 hdoc
  obtain ⟨key, hkey⟩ := Documents.mem_values_iff.1 hstored
  rw [(h.placed key doc hkey).key_eq, htenant] at hkey
  exact hkey

/-- A query with a condition that no document can satisfy asks for none. -/
theorem matching_eq_nil
    {definition : IndexDefinition}
    {c : WhereClause}
    (hc : c ∈ spec.filters)
    (hvalue : KeyValue.ofJson? c.value = none) :
    s.matching definition spec = [] := by
  refine List.eq_nil_iff_forall_not_mem.2 fun doc hdoc => ?_
  obtain ⟨-, -, -, -, hsatisfied⟩ := mem_matching_iff.1 hdoc
  obtain ⟨_, _, -, hwanted, -⟩ := WhereClause.exists_of_satisfiedBy (hsatisfied c hc)
  rw [hvalue] at hwanted
  cases hwanted

/-- The documents that the accepted entries of an index lead to. -/
def found
    (s : Store)
    (plan : Plan)
    (index : Index) :
    List Document :=
  (index.tree.toList.filter fun e => plan.accepts e.1).filterMap fun e => s.find? plan.tenant e.2

section

variable (h : s.Indexed) (hplanned : s.PlannedWith spec shape index)
  (hkeyed : ∀ c ∈ shape.clauses, (KeyValue.ofJson? c.value).isSome = true) (score : Nat)

include h hplanned hkeyed

/-- An accepted entry leads to a document that is asked for and has this entry. -/
theorem entryFor?_of_found
    {e : Key × DocumentPath}
    {doc : Document}
    (he : e ∈ index.tree.toList)
    (haccepts : (Plan.onIndex spec shape index.definition score).accepts e.1 = true)
    (hfind : s.find? spec.tenant e.2 = some doc) :
    Index.entryFor? index.definition s.catalog.tenantField doc = some e ∧
      doc ∈ s.matching index.definition spec := by
  obtain ⟨l⟩ := hplanned.layout
  obtain ⟨-, hholds⟩ := h.holds _ index hplanned.listed
  obtain ⟨other, hstored, hcollection, hentry⟩ := (hholds.entries e).1 he
  obtain ⟨key, hkey, rfl⟩ := Option.map_eq_some_iff.1 hentry
  obtain ⟨htenant, hsatisfied⟩ :=
    (Plan.accepts_iff hplanned.isOf l hkeyed score hplanned.ranges hkey).1 haccepts
  have hmatching : other ∈ s.matching index.definition spec := mem_matching_iff.2
    ⟨hstored, hcollection.trans hplanned.collection, ⟨key, hkey⟩, htenant, hsatisfied⟩
  have hsame : other = doc :=
    Option.some.inj ((h.find?_of_matching hmatching).symm.trans hfind)
  subst hsame
  exact ⟨hentry, hmatching⟩

/-- The accepted entries lead to the documents that are asked for. -/
theorem mem_found_iff
    {doc : Document} :
    doc ∈ s.found (Plan.onIndex spec shape index.definition score) index ↔
      doc ∈ s.matching index.definition spec := by
  unfold found
  rw [List.mem_filterMap]
  constructor
  · rintro ⟨e, he, hfind⟩
    obtain ⟨he, haccepts⟩ := List.mem_filter.1 he
    exact (entryFor?_of_found h hplanned hkeyed score he haccepts hfind).2
  · intro hdoc
    obtain ⟨l⟩ := hplanned.layout
    obtain ⟨-, hholds⟩ := h.holds _ index hplanned.listed
    obtain ⟨hstored, hcollection, ⟨key, hkey⟩, hwanted⟩ := mem_matching_iff.1 hdoc
    have hentry : Index.entryFor? index.definition s.catalog.tenantField doc =
        some (key, doc.path) := by
      rw [Index.entryFor?, hkey]
      rfl
    have hlisted : (key, doc.path) ∈ index.tree.toList :=
      (hholds.entries _).2 ⟨doc, hstored, hcollection.trans hplanned.collection.symm, hentry⟩
    have haccepts := (Plan.accepts_iff hplanned.isOf l hkeyed score hplanned.ranges hkey).2 hwanted
    exact ⟨(key, doc.path), List.mem_filter.2 ⟨hlisted, haccepts⟩, h.find?_of_matching hdoc⟩

/-- The documents that are found stand in strictly ascending order. -/
theorem pairwise_found :
    (s.found (Plan.onIndex spec shape index.definition score) index).Pairwise fun d d' =>
      Tree.entryOrder (Index.placeOf index.definition s.catalog.tenantField d)
        (Index.placeOf index.definition s.catalog.tenantField d') = .lt := by
  obtain ⟨-, hholds⟩ := h.holds _ index hplanned.listed
  have hsorted := hholds.sound.pairwise_toList
  refine List.pairwise_filterMap.2 ((hsorted.filter _).imp_of_mem ?_)
  intro e e' he he' hlt d hd d' hd'
  obtain ⟨he, haccepts⟩ := List.mem_filter.1 he
  obtain ⟨he', haccepts'⟩ := List.mem_filter.1 he'
  rw [Index.placeOf_of_entryFor? (entryFor?_of_found h hplanned hkeyed score he haccepts hd).1,
    Index.placeOf_of_entryFor? (entryFor?_of_found h hplanned hkeyed score he' haccepts' hd').1]
  exact hlt

/-- What is found is what is asked for, sorted. -/
theorem found_eq_mergeSort :
    s.found (Plan.onIndex spec shape index.definition score) index =
      (s.matching index.definition spec).mergeSort
        (Index.notAfter index.definition s.catalog.tenantField) := by
  have hpairwise := pairwise_found h hplanned hkeyed score
  have hnodup : (s.found (Plan.onIndex spec shape index.definition score) index).Nodup := by
    refine hpairwise.imp ?_
    rintro d d' hlt rfl
    exact Tree.ne_of_entryOrder_eq_lt hlt rfl
  have hperm : (s.found (Plan.onIndex spec shape index.definition score) index).Perm
      (s.matching index.definition spec) :=
    (List.perm_ext_iff_of_nodup hnodup (h.nodup_matching _ _)).2 fun doc =>
      mem_found_iff h hplanned hkeyed score
  refine List.Perm.eq_of_pairwise ?_ (hpairwise.imp ?_)
    (List.pairwise_mergeSort Index.notAfter_trans Index.notAfter_total _)
    (hperm.trans (List.mergeSort_perm _ _).symm)
  · intro d d' hd hd' hle hge
    have hpath : d.path = d'.path :=
      congrArg Prod.snd (Index.placeOf_eq_of_notAfter hle hge)
    have hfind := h.find?_of_matching (hperm.mem_iff.1 hd)
    have hfind' := h.find?_of_matching ((List.mergeSort_perm _ _).mem_iff.1 hd')
    rw [hpath] at hfind
    exact Option.some.inj (hfind.symm.trans hfind')
  · intro d d' hlt
    rw [Index.notAfter_eq, hlt]
    rfl

end

/-- An answer has the first of the documents that are asked for, up to the limit. -/
theorem answer_eq_takeUpTo
    (definition : IndexDefinition)
    (spec : QuerySpec) :
    s.answer definition spec = takeUpTo spec.limit
      ((s.matching definition spec).mergeSort
        (Index.notAfter definition s.catalog.tenantField)) := by
  unfold answer takeUpTo
  cases spec.limit <;> rfl

theorem answer_of_no_limit
    {definition : IndexDefinition}
    {spec : QuerySpec}
    (h : spec.limit = none) :
    s.answer definition spec =
      (s.matching definition spec).mergeSort (Index.notAfter definition s.catalog.tenantField) := by
  unfold answer
  rw [h]

/-- With a limit an answer has as many of them as it says, if there are so many. -/
theorem answer_of_limit
    {definition : IndexDefinition}
    {spec : QuerySpec}
    {limit : UInt64}
    (h : spec.limit = some limit) :
    s.answer definition spec =
      ((s.matching definition spec).mergeSort
        (Index.notAfter definition s.catalog.tenantField)).take limit.toNat := by
  unfold answer
  rw [h]

theorem takeUpTo_nil
    {α : Type}
    (limit : Option UInt64) :
    takeUpTo limit ([] : List α) = [] := by
  cases limit with
  | none =>
      rfl
  | some n =>
      exact List.take_nil

/-- The first items up to a limit are some of all, in their order. -/
theorem takeUpTo_sublist
    {α : Type}
    (limit : Option UInt64)
    (items : List α) :
    (takeUpTo limit items).Sublist items := by
  cases limit with
  | none =>
      exact .refl _
  | some n =>
      exact List.take_sublist _ _

/-- No document is in an answer twice. -/
theorem Indexed.nodup_answer
    (h : s.Indexed)
    (definition : IndexDefinition)
    (spec : QuerySpec) :
    (s.answer definition spec).Nodup := by
  rw [answer_eq_takeUpTo]
  refine (takeUpTo_sublist _ _).nodup ?_
  exact (List.mergeSort_perm _ _).nodup_iff.2 (h.nodup_matching definition spec)

/-- A plan with a condition that no document can satisfy leads to what is asked for: nothing. -/
theorem runPlan_of_unsatisfiable
    {score : Nat}
    (hplanned : s.PlannedWith spec shape index)
    (hunsatisfiable : (Plan.onIndex spec shape index.definition score).unsatisfiable = true) :
    s.runPlan (Plan.onIndex spec shape index.definition score) =
      .ok (s.answer index.definition spec) := by
  obtain ⟨l⟩ := hplanned.layout
  obtain ⟨c, hc, hvalue⟩ :=
    (Plan.unsatisfiable_onIndex hplanned.isOf l hplanned.ranges score).1 hunsatisfiable
  rw [hplanned.isOf.clauses] at hc
  have hempty : s.matching index.definition spec = [] :=
    matching_eq_nil (List.mem_filter.1 hc).1 hvalue
  rw [runPlan, if_pos hunsatisfiable, answer_eq_takeUpTo, hempty, List.mergeSort_nil,
    takeUpTo_nil]

/-- A plan leads to the documents that its query asks for, in the order of its index. -/
theorem Indexed.runPlan_eq_answer
    {score : Nat}
    (h : s.Indexed)
    (hplanned : s.PlannedWith spec shape index) :
    s.runPlan (Plan.onIndex spec shape index.definition score) =
      .ok (s.answer index.definition spec) := by
  obtain ⟨l⟩ := hplanned.layout
  by_cases hunsatisfiable : (Plan.onIndex spec shape index.definition score).unsatisfiable = true
  · exact runPlan_of_unsatisfiable hplanned hunsatisfiable
  · have hkeyed : ∀ c ∈ shape.clauses, (KeyValue.ofJson? c.value).isSome = true := by
      intro c hc
      rw [Option.isSome_iff_ne_none]
      exact fun hvalue => hunsatisfiable
        ((Plan.unsatisfiable_onIndex hplanned.isOf l hplanned.ranges score).2 ⟨c, hc, hvalue⟩)
    obtain ⟨-, hholds⟩ := h.holds _ index hplanned.listed
    have hlisted : s.catalog.indexes.get?
        (Plan.onIndex spec shape index.definition score).index = some index := hplanned.listed
    have hscan := Plan.scan_onIndex hplanned.isOf l hkeyed score hholds.sound
    unfold runPlan
    rw [if_neg hunsatisfiable, hlisted]
    dsimp only at hscan ⊢
    rw [hscan, List.filter_filter, answer_eq_takeUpTo,
      ← found_eq_mergeSort h hplanned hkeyed score]
    simp only [found, Plan.accepts, Bool.and_comm]
    rfl

/-- A query that succeeds has been planned, and is answered in the order of the index. -/
theorem Indexed.exists_plan_of_query
    {docs : List Document}
    (h : s.Indexed)
    (hquery : s.query spec = .ok docs) :
    ∃ shape index score, s.PlannedWith spec shape index ∧
      Shape.ofSpec spec s.catalog.tenantField = .ok shape ∧
      shape.score? s.catalog.tenantField index.definition = some score ∧
      s.plan spec = .ok (Plan.onIndex spec shape index.definition score) ∧
      docs = s.answer index.definition spec := by
  unfold query at hquery
  split at hquery
  · cases hquery
  · next plan hplan =>
      obtain ⟨shape, index, score, hplanned, hshape, hscore, rfl⟩ := h.exists_scored_of_plan hplan
      rw [h.runPlan_eq_answer hplanned] at hquery
      exact ⟨shape, index, score, hplanned, hshape, hscore, hplan, (Except.ok.inj hquery).symm⟩

theorem mem_matching_of_answer
    {definition : IndexDefinition}
    {doc : Document}
    (h : doc ∈ s.answer definition spec) :
    doc ∈ s.matching definition spec := by
  rw [answer_eq_takeUpTo] at h
  exact (List.mergeSort_perm _ _).mem_iff.1 ((takeUpTo_sublist _ _).mem h)

end Store

namespace Database

/--
In every reachable database a query that can be planned is answered with the
documents of its tenant and collection that have a key in the index of the
plan and satisfy every condition, each once, in the order of the index, up to
the limit.
-/
theorem Reachable.query_eq_answer
    {db : Database}
    (h : Reachable db)
    {spec : QuerySpec}
    {plan : Plan}
    (hplan : db.store.plan spec = .ok plan) :
    ∃ index, db.store.catalog.indexes.get? plan.index = some index ∧
      db.store.query spec = .ok (db.store.answer index.definition spec) ∧
        (db.store.answer index.definition spec).Nodup := by
  have hindexed := h.indexed
  obtain ⟨shape, index, score, hplanned, rfl⟩ := hindexed.exists_of_plan hplan
  refine ⟨index, hplanned.listed, ?_, hindexed.nodup_answer index.definition spec⟩
  rw [Store.query, hplan]
  exact hindexed.runPlan_eq_answer hplanned

/-- Orders of a tenant, one of them with a state that has no place in a key. -/
def orderStates : List Action :=
  let moment : Moment := ⟨0, fun _ => ⟨7⟩⟩
  [.create moment "acme" "ann" "orders/1" (inState (.string "done")) none,
   .createIndex byState,
   .create moment "acme" "ann" "orders/2" (inState (.string "open")) none,
   .create moment "acme" "ann" "orders/3" (inState (.array [])) none,
   .create moment "acme" "ann" "orders/4" (inState (.string "paid")) none,
   .create moment "zeta" "ann" "orders/5" (inState (.string "paid")) none]

/-- The order of a tenant that is furthest past a state. -/
def pastDone : QuerySpec where
  collection := "orders"
  filters := [⟨"state", .gt, .string "done"⟩]
  order := [⟨"state", .desc⟩]
  limit := some 1
  tenant := "acme"

/-- Of the two orders past the state the paid one comes first, and the other is cut off. -/
theorem answer_after_orderStates :
    Reachable (fresh.run orderStates) ∧
      ∃ plan index, (fresh.run orderStates).store.plan pastDone = .ok plan ∧
        (fresh.run orderStates).store.catalog.indexes.get? plan.index = some index ∧
          (fresh.run orderStates).store.query pastDone =
            .ok ((fresh.run orderStates).store.answer index.definition pastDone) ∧
          ((fresh.run orderStates).store.answer index.definition pastDone).map
            (fun doc => doc.path.text) = ["orders/4"] ∧
          ((fresh.run orderStates).store.query { pastDone with limit := none }).toOption.map
            (fun docs => docs.map fun doc => doc.path.text) =
              some ["orders/4", "orders/2"] := by
  have hreachable : Reachable (fresh.run orderStates) :=
    reachable_fresh.run orderStates
  have hplanned : ((fresh.run orderStates).store.plan pastDone).isOk = true := by decide +kernel
  have htexts : ((fresh.run orderStates).store.query pastDone).toOption.map
      (fun docs => docs.map fun doc => doc.path.text) = some ["orders/4"] := by
    decide +kernel
  cases hplan : (fresh.run orderStates).store.plan pastDone with
  | error fault =>
      rw [hplan] at hplanned
      cases hplanned
  | ok plan =>
      obtain ⟨index, hindex, hquery, -⟩ := hreachable.query_eq_answer hplan
      rw [hquery] at htexts
      exact ⟨hreachable, plan, index, rfl, hindex, hquery, Option.some.inj htexts,
        by decide +kernel⟩

end Database
end DocumentStore
