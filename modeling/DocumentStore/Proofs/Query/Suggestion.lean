import DocumentStore.Proofs.Query.Serving

/-!
# The index that a refusal suggests

A query that no index serves is refused with a definition.  The definition is
normal as it stands, with the tenant field first and no field twice, and it has
the fields that the query needs.  So when it is declared beside the other
indexes, it is the only one that serves the query, and the query is planned
with it.
-/

namespace DocumentStore

namespace Text

theorem blankOnly_append
    (s t : String) :
    blankOnly (s ++ t) = (blankOnly s && blankOnly t) := by
  unfold blankOnly
  rw [String.toList_append, List.all_append]

/-- A text that is put together is not blank if its first part is not. -/
theorem blankOnly_joined_cons
    {s : String}
    (h : blankOnly s = false)
    (rest : List String) :
    blankOnly (joined "" (s :: rest)) = false := by
  cases rest with
  | nil =>
      exact h
  | cons t rest =>
      have hjoined : joined "" (s :: t :: rest) = s ++ ("" ++ joined "" (t :: rest)) :=
        String.append_assoc ..
      rw [hjoined, blankOnly_append, h, Bool.false_and]

end Text

namespace IndexDefinition

/-- No fault is found among fields that have names, all different and not seen before. -/
theorem fieldFault?_eq_none
    {index : String}
    {seen : List String}
    {fields : List SortField}
    (hnamed : ∀ f ∈ fields, f.field ≠ "")
    (hnodup : (fields.map SortField.field).Nodup)
    (hseen : ∀ f ∈ fields, f.field ∉ seen) :
    fieldFault? index seen fields = none := by
  induction fields generalizing seen with
  | nil =>
      rfl
  | cons f rest ih =>
      rw [List.forall_mem_cons] at hnamed hseen
      rw [List.map_cons, List.nodup_cons] at hnodup
      rw [fieldFault?, if_neg hnamed.1, if_neg hseen.1]
      refine ih hnamed.2 hnodup.2 fun f' hf' => ?_
      rw [List.mem_cons, not_or]
      refine ⟨fun hsame => hnodup.1 ?_, hseen.2 f' hf'⟩
      rw [← hsame]
      exact List.mem_map_of_mem hf'

/-- With the tenant field first and no field twice, a definition is normal as it stands. -/
theorem normalized_eq_self
    {d : IndexDefinition}
    {tenantField : String}
    (hname : Text.blankOnly d.name = false)
    (hblank : Text.blankOnly d.collection = false)
    (hslash : '/' ∉ d.collection.toList)
    (hnamed : ∀ f ∈ d.fields, f.field ≠ "")
    (hnodup : d.fieldNames.Nodup)
    (hfirst : d.fieldNames.head? = some tenantField) :
    d.normalized tenantField = .ok d := by
  have hcollection : ¬ (Text.blankOnly d.collection = true ∨ '/' ∈ d.collection.toList) := by
    rw [hblank]
    simp [hslash]
  obtain ⟨rest, hnames⟩ := List.head?_eq_some_iff.1 hfirst
  unfold normalized
  rw [if_neg (by simp [hname]), if_neg hcollection, fieldFault?_eq_none hnamed hnodup (by simp),
    hnames, List.idxOf?_cons]
  simp

end IndexDefinition

/-- A suggested definition has the tenant field, then the pinned fields, then those that follow. -/
theorem Shape.wantedFields_eq
    (s : Shape)
    (tenantField : String) :
    s.wantedFields tenantField =
      ⟨tenantField, .asc⟩ :: (s.equality.map (⟨·, .asc⟩) ++
        (s.leading.map (⟨·, .asc⟩) ++ s.order ++ [])) := by
  unfold wantedFields leading
  cases s.range? with
  | none =>
      simp
  | some range =>
      by_cases hleads : s.rangeLeadsOrder = true <;> simp [hleads]

namespace QuerySpec

variable {spec : QuerySpec} {tenantField : String}

/-- A pinned field is the field of a condition, and not that of the tenant. -/
theorem mem_pinnedFields_iff
    {field : String} :
    field ∈ spec.pinnedFields tenantField ↔
      field ≠ tenantField ∧ ∃ c ∈ spec.filters, c.op.isEquality = true ∧ c.field = field := by
  unfold pinnedFields
  simp only [List.mem_eraseDups, List.mem_map, List.mem_filter, Bool.and_eq_true,
    decide_eq_true_eq]
  constructor
  · rintro ⟨c, ⟨hc, hop, hfield⟩, rfl⟩
    exact ⟨hfield, c, hc, hop, rfl⟩
  · rintro ⟨hfield, c, hc, hop, rfl⟩
    exact ⟨c, ⟨hc, hop, hfield⟩, rfl⟩

/-- A field of the order that is left is one of the order, not pinned and not that of the tenant. -/
theorem mem_openOrder_iff
    {o : SortField} :
    o ∈ spec.openOrder tenantField ↔
      o ∈ spec.order ∧ o.field ≠ tenantField ∧ o.field ∉ spec.pinnedFields tenantField := by
  simp [openOrder]

/-- The field before the order is that of an open range, which the order does not start with. -/
theorem of_mem_leadFields
    (hspec : spec.WellFormed tenantField)
    {field : String}
    (h : field ∈ spec.leadFields tenantField) :
    (∃ c ∈ spec.filters, c.field = field) ∧ field ≠ tenantField ∧
      field ∉ spec.pinnedFields tenantField ∧
      field ∉ (spec.openOrder tenantField).map SortField.field := by
  unfold leadFields at h
  split at h
  · cases h
  · next range hrange =>
      split at h
      · cases h
      · next hhead =>
          obtain rfl := List.mem_singleton.1 h
          have hmem := List.mem_of_mem_head? hrange
          rw [openRanges, List.mem_filter, Bool.and_eq_true, decide_eq_true_eq] at hmem
          obtain ⟨hfilter, hop, hpinned⟩ := hmem
          refine ⟨⟨range, hfilter, rfl⟩, ?_, hpinned, ?_⟩
          · intro htenant
            rw [(hspec.tenantClauses range hfilter htenant).1] at hop
            cases hop
          · have htail := hspec.rangeFirst range hrange
            intro hordered
            obtain ⟨o, ho, hfield⟩ := List.mem_map.1 hordered
            cases horder : spec.openOrder tenantField with
            | nil =>
                rw [horder] at ho
                cases ho
            | cons first rest =>
                rw [horder] at ho htail hhead
                rcases List.mem_cons.1 ho with rfl | hrest
                · exact hhead (congrArg some hfield)
                · exact htail o hrest hfield

theorem nodup_leadFields : (spec.leadFields tenantField).Nodup := by
  unfold leadFields
  split
  · exact .nil
  · split
    · exact .nil
    · exact List.nodup_singleton _

/-- The fields that a query needs are all different. -/
theorem nodup_needed
    (hspec : spec.WellFormed tenantField) :
    (tenantField :: (spec.pinnedFields tenantField ++ (spec.leadFields tenantField ++
      (spec.openOrder tenantField).map SortField.field))).Nodup := by
  have hordered : ∀ field ∈ (spec.openOrder tenantField).map SortField.field,
      field ≠ tenantField ∧ field ∉ spec.pinnedFields tenantField := by
    intro field hfield
    obtain ⟨o, ho, rfl⟩ := List.mem_map.1 hfield
    exact (mem_openOrder_iff.1 ho).2
  rw [List.nodup_cons]
  constructor
  · simp only [List.mem_append, not_or]
    exact ⟨fun h => (mem_pinnedFields_iff.1 h).1 rfl,
      fun h => (of_mem_leadFields hspec h).2.1 rfl, fun h => (hordered _ h).1 rfl⟩
  · refine List.nodup_append'.2 ⟨nodup_eraseDups _, ?_, ?_⟩
    · refine List.nodup_append'.2 ⟨nodup_leadFields, hspec.order, ?_⟩
      exact fun field hlead => (of_mem_leadFields hspec hlead).2.2.2
    · intro field hpinned hlater
      rcases List.mem_append.1 hlater with hlead | horder
      · exact (of_mem_leadFields hspec hlead).2.2.1 hpinned
      · exact (hordered field horder).2 hpinned

/-- The suggested definition serves the query. -/
theorem servedBy_suggest :
    spec.ServedBy tenantField
      ((spec.shapeIn tenantField).suggest spec.collection tenantField) := by
  refine ⟨rfl, ⟨tenantField, .asc⟩, _, _, [], Shape.wantedFields_eq _ _, rfl, ?_, ?_⟩
  · rw [List.map_map]
    exact .of_eq (List.map_id _)
  · rw [List.map_map, Shape.leading_shapeIn]
    exact List.map_id _

/-- The fields of the suggested definition are those that the query needs. -/
theorem fieldNames_suggest :
    ((spec.shapeIn tenantField).suggest spec.collection tenantField).fieldNames =
      tenantField :: (spec.pinnedFields tenantField ++ (spec.leadFields tenantField ++
        (spec.openOrder tenantField).map SortField.field)) := by
  change ((spec.shapeIn tenantField).wantedFields tenantField).map SortField.field = _
  rw [Shape.wantedFields_eq, Shape.leading_shapeIn]
  simp [shapeIn, Function.comp_def]

/-- The suggested definition is normal as it stands. -/
theorem normalized_suggest
    (hspec : spec.WellFormed tenantField)
    (hfield : tenantField ≠ "")
    (hcollection : Text.blankOnly spec.collection = false)
    (hfilters : ∀ c ∈ spec.filters, c.field ≠ "")
    (horder : ∀ o ∈ spec.order, o.field ≠ "") :
    let suggested := (spec.shapeIn tenantField).suggest spec.collection tenantField
    suggested.normalized tenantField = .ok suggested ∧
      suggested.fieldNames.head? = some tenantField ∧ suggested.fieldNames.Nodup := by
  intro suggested
  have hnames : suggested.fieldNames = tenantField :: (spec.pinnedFields tenantField ++
      (spec.leadFields tenantField ++ (spec.openOrder tenantField).map SortField.field)) :=
    fieldNames_suggest
  have hnodup : suggested.fieldNames.Nodup := by
    rw [hnames]
    exact nodup_needed hspec
  have hfirst : suggested.fieldNames.head? = some tenantField := by
    rw [hnames]
    rfl
  refine ⟨IndexDefinition.normalized_eq_self ?_ hcollection hspec.collection.2 ?_ hnodup hfirst,
    hfirst, hnodup⟩
  · exact Text.blankOnly_joined_cons hcollection _
  · intro f hf
    have hname : f.field ∈ suggested.fieldNames := List.mem_map_of_mem hf
    rw [hnames, List.mem_cons, List.mem_append, List.mem_append] at hname
    rcases hname with htenant | hpinned | hlead | hordered
    · rw [htenant]
      exact hfield
    · obtain ⟨-, c, hc, -, hsame⟩ := mem_pinnedFields_iff.1 hpinned
      rw [← hsame]
      exact hfilters c hc
    · obtain ⟨⟨c, hc, hsame⟩, -⟩ := of_mem_leadFields hspec hlead
      rw [← hsame]
      exact hfilters c hc
    · obtain ⟨o, ho, hsame⟩ := List.mem_map.1 hordered
      rw [← hsame]
      exact horder o (mem_openOrder_iff.1 ho).1

end QuerySpec

namespace Plan

variable {spec : QuerySpec} {tenantField : String}

/-- A query that is refused has no mistakes, and no index serves it unless it has several ranges. -/
theorem not_servedBy_of_notIndexed
    {definitions : List IndexDefinition}
    {collection : String}
    {reason : Unindexed}
    {suggested : IndexDefinition}
    (h : ofSpec spec definitions tenantField = .error (.notIndexed collection reason suggested)) :
    spec.WellFormed tenantField ∧
      suggested = (spec.shapeIn tenantField).suggest spec.collection tenantField ∧
      ((spec.openRanges tenantField).length ≤ 1 →
        ∀ definition ∈ definitions, ¬ spec.ServedBy tenantField definition) := by
  have hsuggested : ∃ shape, Shape.ofSpec spec tenantField = .ok shape ∧
      suggested = shape.suggest spec.collection tenantField := by
    unfold ofSpec at h
    split at h
    · cases h
    · next shape hshape =>
        refine ⟨shape, hshape, ?_⟩
        dsimp only at h
        split at h
        · cases h
          rfl
        · split at h
          · cases h
            rfl
          · cases h
  obtain ⟨shape, hshape, rfl⟩ := hsuggested
  obtain ⟨hspec, rfl⟩ := Shape.ofSpec_eq_ok_iff.1 hshape
  refine ⟨hspec, rfl, fun hranges definition hmem hserved => ?_⟩
  obtain ⟨plan, hplan⟩ := (exists_ofSpec_iff_servedBy hspec).2 ⟨hranges, definition, hmem, hserved⟩
  rw [hplan] at h
  cases h

/--
When a query is refused for want of an index, the suggested definition is normal
as it stands, with the tenant field first and no field twice.  Declared anywhere
among the other indexes, it is the one that the query is planned with.
-/
theorem suggestion_is_chosen
    (hfield : tenantField ≠ "")
    (hcollection : Text.blankOnly spec.collection = false)
    (hfilters : ∀ c ∈ spec.filters, c.field ≠ "")
    (horder : ∀ o ∈ spec.order, o.field ≠ "")
    {first rest : List IndexDefinition}
    {collection : String}
    {reason : Unindexed}
    {suggested : IndexDefinition}
    (hrefused : ofSpec spec (first ++ rest) tenantField =
      .error (.notIndexed collection reason suggested))
    (hranges : (spec.openRanges tenantField).length ≤ 1) :
    suggested.normalized tenantField = .ok suggested ∧
    suggested.fieldNames.head? = some tenantField ∧
    suggested.fieldNames.Nodup ∧
    ∃ plan, ofSpec spec (first ++ suggested :: rest) tenantField = .ok plan ∧
      plan.index = suggested.name ∧
      plan = onIndex spec (spec.shapeIn tenantField) suggested plan.score := by
  obtain ⟨hspec, rfl, hnone⟩ := not_servedBy_of_notIndexed hrefused
  obtain ⟨hnormal, hhead, hnodup⟩ :=
    QuerySpec.normalized_suggest hspec hfield hcollection hfilters horder
  refine ⟨hnormal, hhead, hnodup, ?_⟩
  obtain ⟨plan, hplan⟩ : ∃ plan, ofSpec spec
      (first ++ (spec.shapeIn tenantField).suggest spec.collection tenantField :: rest)
      tenantField = .ok plan :=
    (exists_ofSpec_iff_servedBy hspec).2
      ⟨hranges, _, List.mem_append_right _ List.mem_cons_self, QuerySpec.servedBy_suggest⟩
  obtain ⟨-, definition, hmem, hserved, heq, -⟩ := first_of_ofSpec hplan
  have hothers : definition ∉ first ++ rest :=
    fun hmem => hnone hranges definition hmem hserved
  have hchosen : definition =
      (spec.shapeIn tenantField).suggest spec.collection tenantField := by
    rw [List.mem_append, not_or] at hothers
    rcases List.mem_append.1 hmem with hfirst | hrest
    · exact absurd hfirst hothers.1
    · rcases List.mem_cons.1 hrest with hsame | hrest
      · exact hsame
      · exact absurd hrest hothers.2
  rw [hchosen] at heq
  exact ⟨plan, hplan, by rw [heq]; rfl, heq⟩

/-- The open orders from a total on are refused by an index of the totals, and then planned. -/
theorem dearOpenOrders_suggestion :
    ∃ reason suggested, ofSpec dearOpenOrders (orderIndexes.drop 2) "tenantId" =
      .error (.notIndexed "orders" reason suggested) ∧
    suggested.name = "orders_tenantId_state_total_desc" ∧
    suggested.normalized "tenantId" = .ok suggested ∧
    ∃ plan, ofSpec dearOpenOrders (suggested :: orderIndexes.drop 2) "tenantId" = .ok plan ∧
      plan.index = suggested.name := by
  obtain ⟨reason, suggested, hrefused, hname⟩ : ∃ reason suggested,
      ofSpec dearOpenOrders (orderIndexes.drop 2) "tenantId" =
        .error (.notIndexed "orders" reason suggested) ∧
      suggested.name = "orders_tenantId_state_total_desc" :=
    ⟨_, _, rfl, by decide +kernel⟩
  have hrefused' : ofSpec dearOpenOrders ([] ++ orderIndexes.drop 2) "tenantId" =
      .error (.notIndexed "orders" reason suggested) := hrefused
  obtain ⟨hnormal, -, -, plan, hplan, hindex, -⟩ :=
    suggestion_is_chosen (by decide) (by decide +kernel) (by decide +kernel)
      (by decide +kernel) hrefused' (by decide +kernel)
  exact ⟨reason, suggested, hrefused, hname, hnormal, plan, hplan, hindex⟩

end Plan
end DocumentStore
