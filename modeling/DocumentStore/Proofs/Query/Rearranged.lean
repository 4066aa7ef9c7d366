import DocumentStore.Proofs.Query.Serving

/-!
# The order of conditions

Conditions of a query may be put in another order, and equalities may be
repeated.  That can change the condition a scan starts from, the first range
condition and the list of checks, but neither the fields that an index must
have nor the documents that are asked for.  So the query is refused as before
or answered with the same list.
-/

namespace DocumentStore

/-- Conditions that come from others by changes of their order and repetitions of equalities. -/
inductive Rearranged : List WhereClause → List WhereClause → Prop where
  | ofPerm
      {filters listed : List WhereClause}
      (h : filters.Perm listed) :
      Rearranged filters listed
  | repeated
      {filters : List WhereClause}
      {c : WhereClause}
      (hmem : c ∈ filters)
      (hop : c.op = .eq) :
      Rearranged filters (c :: filters)
  | symm
      {filters listed : List WhereClause}
      (h : Rearranged filters listed) :
      Rearranged listed filters
  | trans
      {filters listed again : List WhereClause}
      (h : Rearranged filters listed)
      (h' : Rearranged listed again) :
      Rearranged filters again

namespace Rearranged

variable {filters listed : List WhereClause}

/-- The same conditions are listed. -/
theorem mem_iff
    (h : Rearranged filters listed)
    {c : WhereClause} :
    c ∈ listed ↔ c ∈ filters := by
  induction h with
  | ofPerm h =>
      exact h.mem_iff.symm
  | repeated hmem _ =>
      refine ⟨fun hc => ?_, List.mem_cons_of_mem _⟩
      rcases List.mem_cons.1 hc with rfl | hc
      · exact hmem
      · exact hc
  | symm _ ih =>
      exact ih.symm
  | trans _ _ ih ih' =>
      exact ih'.trans ih

/-- Range conditions are as often there as before. -/
theorem ranges
    (h : Rearranged filters listed) :
    (listed.filter fun c => c.op.isRange).Perm (filters.filter fun c => c.op.isRange) := by
  induction h with
  | ofPerm h =>
      exact (h.filter _).symm
  | repeated _ hop =>
      rw [List.filter_cons_of_neg (by rw [hop]; decide)]
  | symm _ ih =>
      exact ih.symm
  | trans _ _ ih ih' =>
      exact ih'.trans ih

end Rearranged

namespace QuerySpec

variable {spec : QuerySpec} {tenantField : String} {listed : List WhereClause}

/-! ### What an index must have -/

theorem mem_pinnedFields_of_rearranged
    (h : Rearranged spec.filters listed)
    {field : String} :
    field ∈ { spec with filters := listed }.pinnedFields tenantField ↔
      field ∈ spec.pinnedFields tenantField := by
  simp only [pinnedFields, List.mem_eraseDups, List.mem_map, List.mem_filter, h.mem_iff]

theorem pinnedFields_perm
    (h : Rearranged spec.filters listed) :
    ({ spec with filters := listed }.pinnedFields tenantField).Perm
      (spec.pinnedFields tenantField) :=
  (List.perm_ext_iff_of_nodup (nodup_eraseDups _) (nodup_eraseDups _)).2 fun _ =>
    mem_pinnedFields_of_rearranged h

/-- The same range conditions are on fields that are not pinned, perhaps in another order. -/
theorem openRanges_perm
    (h : Rearranged spec.filters listed) :
    ({ spec with filters := listed }.openRanges tenantField).Perm
      (spec.openRanges tenantField) := by
  have hsplit : ∀ filters : List WhereClause,
      (filters.filter fun c => c.op.isRange && c.field ∉ spec.pinnedFields tenantField) =
        (filters.filter fun c => c.op.isRange).filter fun c =>
          c.field ∉ spec.pinnedFields tenantField := by
    intro filters
    rw [List.filter_filter]
    exact List.filter_congr fun c _ => Bool.and_comm ..
  unfold openRanges
  simp only [mem_pinnedFields_of_rearranged h]
  rw [hsplit, hsplit]
  exact h.ranges.filter _

/-- A single range condition on a field that is not pinned stays the single one. -/
theorem openRanges_eq_of_rearranged
    (h : Rearranged spec.filters listed)
    (hranges : (spec.openRanges tenantField).length ≤ 1) :
    { spec with filters := listed }.openRanges tenantField = spec.openRanges tenantField := by
  have hperm : ({ spec with filters := listed }.openRanges tenantField).Perm
      (spec.openRanges tenantField) := openRanges_perm h
  cases hopen : spec.openRanges tenantField with
  | nil =>
      rw [hopen] at hperm
      exact hperm.eq_nil
  | cons range more =>
      rw [hopen, List.length_cons] at hranges
      obtain rfl : more = [] :=
        List.length_eq_zero_iff.1 (Nat.le_zero.1 (Nat.le_of_succ_le_succ hranges))
      rw [hopen] at hperm
      exact hperm.eq_singleton

theorem openOrder_of_rearranged
    (h : Rearranged spec.filters listed) :
    { spec with filters := listed }.openOrder tenantField = spec.openOrder tenantField := by
  unfold openOrder
  simp only [mem_pinnedFields_of_rearranged h]

/-- A query without mistakes has none after its conditions were rearranged. -/
theorem WellFormed.rearranged
    (hspec : spec.WellFormed tenantField)
    (hranges : (spec.openRanges tenantField).length ≤ 1)
    (h : Rearranged spec.filters listed) :
    { spec with filters := listed }.WellFormed tenantField where
  collection := hspec.collection
  tenant := hspec.tenant
  tenantClauses c hc := hspec.tenantClauses c (h.mem_iff.1 hc)
  order := by
    rw [openOrder_of_rearranged h]
    exact hspec.order
  rangeFirst := by
    rw [openOrder_of_rearranged h, openRanges_eq_of_rearranged h hranges]
    exact hspec.rangeFirst

/-- The same indexes serve the query. -/
theorem servedBy_of_rearranged
    (h : Rearranged spec.filters listed)
    (hranges : (spec.openRanges tenantField).length ≤ 1)
    {definition : IndexDefinition} :
    { spec with filters := listed }.ServedBy tenantField definition ↔
      spec.ServedBy tenantField definition := by
  have hpinned : ∀ fields : List String,
      fields.Perm ({ spec with filters := listed }.pinnedFields tenantField) ↔
        fields.Perm (spec.pinnedFields tenantField) :=
    fun fields => ⟨fun hf => hf.trans (pinnedFields_perm h),
      fun hf => hf.trans (pinnedFields_perm h).symm⟩
  have hlead : { spec with filters := listed }.leadFields tenantField =
      spec.leadFields tenantField := by
    unfold leadFields
    rw [openRanges_eq_of_rearranged h hranges, openOrder_of_rearranged h]
  unfold ServedBy
  simp only [hpinned, hlead, openOrder_of_rearranged h]

theorem points_of_rearranged
    (h : Rearranged spec.filters listed)
    (hranges : (spec.openRanges tenantField).length ≤ 1) :
    { spec with filters := listed }.points tenantField = spec.points tenantField := by
  unfold points
  rw [(pinnedFields_perm h).length_eq, openRanges_eq_of_rearranged h hranges,
    openOrder_of_rearranged h]

end QuerySpec

/-- The score of an index of the collection is that of the query, if the index serves it. -/
theorem Shape.score?_eq_some_iff
    {spec : QuerySpec}
    {tenantField : String}
    {definition : IndexDefinition}
    {score : Nat}
    (hspec : spec.WellFormed tenantField)
    (hranges : (spec.openRanges tenantField).length ≤ 1)
    (hcollection : definition.collection = spec.collection) :
    (spec.shapeIn tenantField).score? tenantField definition = some score ↔
      spec.ServedBy tenantField definition ∧ score = spec.points tenantField := by
  constructor
  · intro hscore
    have hserved := servedBy_of_score? hspec hcollection hscore
    rw [score?_of_servedBy hserved hranges] at hscore
    exact ⟨hserved, (Option.some.inj hscore).symm⟩
  · rintro ⟨hserved, rfl⟩
    exact score?_of_servedBy hserved hranges

/-- The candidates for a query are the same after its conditions were rearranged. -/
theorem Plan.candidates_of_rearranged
    {spec : QuerySpec}
    {tenantField : String}
    {listed : List WhereClause}
    (hspec : spec.WellFormed tenantField)
    (hranges : (spec.openRanges tenantField).length ≤ 1)
    (h : Rearranged spec.filters listed)
    (definitions : List IndexDefinition) :
    candidates ({ spec with filters := listed }.shapeIn tenantField) spec.collection tenantField
        definitions =
      candidates (spec.shapeIn tenantField) spec.collection tenantField definitions := by
  have hspec' := hspec.rearranged hranges h
  have hranges' : ({ spec with filters := listed }.openRanges tenantField).length ≤ 1 := by
    rw [QuerySpec.openRanges_eq_of_rearranged h hranges]
    exact hranges
  unfold candidates
  refine List.filterMap_congr fun d hd => ?_
  have hcollection : d.collection = spec.collection := of_decide_eq_true (List.mem_filter.1 hd).2
  have hscore : ({ spec with filters := listed }.shapeIn tenantField).score? tenantField d =
      (spec.shapeIn tenantField).score? tenantField d := by
    refine Option.ext fun score => ?_
    rw [Shape.score?_eq_some_iff hspec' hranges' hcollection,
      Shape.score?_eq_some_iff hspec hranges hcollection,
      QuerySpec.servedBy_of_rearranged h hranges, QuerySpec.points_of_rearranged h hranges]
  rw [hscore]

namespace Store

variable {s : Store} {spec : QuerySpec} {listed : List WhereClause}

/-! ### What is answered -/

/-- The same documents are asked for, in the same order and up to the same limit. -/
theorem answer_of_rearranged
    (h : Rearranged spec.filters listed)
    (definition : IndexDefinition) :
    s.answer definition { spec with filters := listed } = s.answer definition spec := by
  have hall : ∀ d : Document,
      (listed.all fun c => c.satisfiedBy s.catalog.tenantField d) =
        spec.filters.all fun c => c.satisfiedBy s.catalog.tenantField d := by
    intro d
    rw [Bool.eq_iff_iff, List.all_eq_true, List.all_eq_true]
    exact forall_congr' fun c => imp_congr_left h.mem_iff
  unfold answer matching
  simp only [hall]

/-- A query that is answered is answered with the same list after its conditions were rearranged. -/
theorem Indexed.query_eq_of_rearranged
    (h : s.Indexed)
    (hlisted : Rearranged spec.filters listed)
    {docs : List Document}
    (hquery : s.query spec = .ok docs) :
    s.query { spec with filters := listed } = .ok docs := by
  obtain ⟨_, _, _, _, _, _, hplan, _⟩ := h.exists_plan_of_query hquery
  obtain ⟨shape, score, definition, hshape, hranges, hbest, -⟩ := Plan.ofSpec_eq_ok_iff.1 hplan
  obtain ⟨hspec, rfl⟩ := Shape.ofSpec_eq_ok_iff.1 hshape
  have hspec' := hspec.rearranged hranges hlisted
  have hranges' :
      ({ spec with filters := listed }.openRanges s.catalog.tenantField).length ≤ 1 := by
    rw [QuerySpec.openRanges_eq_of_rearranged hlisted hranges]
    exact hranges
  have hbest' := hbest
  rw [← Plan.candidates_of_rearranged hspec hranges hlisted] at hbest'
  obtain ⟨-, hanswer⟩ := h.query_of_best hshape hranges hbest
  obtain ⟨-, hanswer'⟩ :=
    h.query_of_best (Shape.ofSpec_of_wellFormed hspec') hranges' hbest'
  rw [hanswer', answer_of_rearranged hlisted, ← hanswer, hquery]

end Store

namespace Database

/--
In every reachable database the order of the conditions of a query and the
repetition of equalities do not matter: before and after the query is refused,
or before and after it is answered with the same list.
-/
theorem Reachable.query_of_rearranged
    {db : Database}
    (h : Reachable db)
    {spec : QuerySpec}
    {listed : List WhereClause}
    (hlisted : Rearranged spec.filters listed) :
    (∃ docs, db.store.query spec = .ok docs ∧
      db.store.query { spec with filters := listed } = .ok docs) ∨
    ∃ e e', db.store.query spec = .error e ∧
      db.store.query { spec with filters := listed } = .error e' := by
  have hindexed := h.indexed
  cases hquery : db.store.query spec with
  | ok docs =>
      exact .inl ⟨docs, rfl, hindexed.query_eq_of_rearranged hlisted hquery⟩
  | error e =>
      refine .inr ⟨e, ?_⟩
      cases hquery' : db.store.query { spec with filters := listed } with
      | error e' =>
          exact ⟨e', rfl, rfl⟩
      | ok docs =>
          have hsymm : Rearranged { spec with filters := listed }.filters spec.filters :=
            hlisted.symm
          have hback := hindexed.query_eq_of_rearranged hsymm hquery'
          rw [show { spec with filters := spec.filters } = spec from rfl, hquery] at hback
          cases hback

/-- The paid orders, asked for as orders that are past a state too. -/
def paidPastDone : QuerySpec :=
  { pastDone with filters := [⟨"state", .gt, .string "done"⟩, ⟨"state", .eq, .string "paid"⟩] }

/-- The equality may come first, and once more. -/
theorem paidPastDone_rearranged :
    Reachable (fresh.run orderStates) ∧
    ∃ listed, listed.length = 3 ∧ Rearranged paidPastDone.filters listed ∧
      ∃ docs, (fresh.run orderStates).store.query paidPastDone = .ok docs ∧
        (fresh.run orderStates).store.query { paidPastDone with filters := listed } = .ok docs ∧
        docs.map (fun doc => doc.path.text) = ["orders/4"] := by
  have hreachable : Reachable (fresh.run orderStates) := reachable_fresh.run orderStates
  have hlisted : Rearranged paidPastDone.filters
      [⟨"state", .eq, .string "paid"⟩, ⟨"state", .eq, .string "paid"⟩,
        ⟨"state", .gt, .string "done"⟩] :=
    .trans (.ofPerm (.swap _ _ _)) (.repeated (.head _) rfl)
  have hpaths : ((fresh.run orderStates).store.query paidPastDone).toOption.map
      (fun docs => docs.map fun doc => doc.path.text) = some ["orders/4"] := by
    decide +kernel
  refine ⟨hreachable, _, rfl, hlisted, ?_⟩
  rcases hreachable.query_of_rearranged hlisted with ⟨docs, hquery, hquery'⟩ | ⟨e, _, hquery, -⟩
  · rw [hquery] at hpaths
    exact ⟨docs, hquery, hquery', Option.some.inj hpaths⟩
  · rw [hquery] at hpaths
    cases hpaths

end Database
end DocumentStore
