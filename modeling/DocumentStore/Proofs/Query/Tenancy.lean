import DocumentStore.Proofs.Query.Answer
import DocumentStore.Proofs.Store.Tenancy

/-!
# Queries see the share of their tenant

A query is planned by the indexes that are declared, and its answer is made of
the documents of its tenant.  So a store that has the documents of one tenant
and no others, with the same indexes declared, answers the queries of that
tenant in the same way.
-/

namespace DocumentStore
namespace Store

variable
  {tenant : String}
  {instant : Nat}
  {readings : List Timestamp}
  {s own : Store}
  {spec : QuerySpec}

theorem Share.values_eq
    (h : Share tenant instant readings s own)
    (hplaced : s.documents.Placed) :
    own.documents.values = s.documents.values.filter fun d => d.tenant = tenant := by
  unfold OrderedMap.values
  rw [h.documents.entries_eq, List.filter_map]
  refine congrArg _ (List.filter_congr fun e he => ?_)
  have hstands := hplaced e.1 e.2 (OrderedMap.get?_eq_some_iff.2 he)
  simp only [Function.comp, hstands.tenant]

theorem Share.matching_eq
    (h : Share tenant instant readings s own)
    (hplaced : s.documents.Placed)
    (hspec : spec.tenant = tenant)
    (definition : IndexDefinition) :
    own.matching definition spec = s.matching definition spec := by
  unfold matching documentsOf
  rw [h.values_eq hplaced, h.tenantField, hspec]
  simp only [List.filter_filter]
  refine List.filter_congr fun d _ => ?_
  by_cases htenant : d.tenant = tenant
  · simp [htenant]
  · simp [htenant]

theorem Share.answer_eq
    (h : Share tenant instant readings s own)
    (hplaced : s.documents.Placed)
    (hspec : spec.tenant = tenant)
    (definition : IndexDefinition) :
    own.answer definition spec = s.answer definition spec := by
  unfold answer
  rw [h.matching_eq hplaced hspec, h.tenantField]

theorem Share.plan_eq
    (h : Share tenant instant readings s own)
    (spec : QuerySpec) :
    own.plan spec = s.plan spec := by
  unfold plan
  rw [Catalog.definitions_eq, Catalog.definitions_eq, h.declared, h.tenantField]

theorem PlannedWith.declared
    {shape : Shape}
    {index : Index}
    (h : s.PlannedWith spec shape index) :
    s.catalog.declared.get? index.definition.name = some index.definition := by
  rw [Catalog.get?_declared, h.listed]
  rfl

/-- A query of the tenant has the same answer. -/
theorem Share.query_eq
    (h : Share tenant instant readings s own)
    (hs : s.Indexed)
    (hown : own.Indexed)
    (hspec : spec.tenant = tenant) :
    own.query spec = s.query spec := by
  have hsame := h.plan_eq spec
  unfold query
  rw [hsame]
  cases hplan : s.plan spec with
  | error e =>
      rfl
  | ok plan =>
      obtain ⟨shape, index, score, hplanned, rfl⟩ := hs.exists_of_plan hplan
      obtain ⟨shape', index', score', hplanned', heq⟩ := hown.exists_of_plan (hsame.trans hplan)
      -- both plans name the same index, and so the same definition
      have hname : index.definition.name = index'.definition.name := congrArg Plan.index heq
      have hdefinition : index.definition = index'.definition := by
        have hdeclared := hplanned.declared
        have hdeclared' := hplanned'.declared
        rw [h.declared, ← hname, hdeclared] at hdeclared'
        exact Option.some.inj hdeclared'
      dsimp only
      rw [hs.runPlan_eq_answer hplanned, heq, hown.runPlan_eq_answer hplanned', ← hdefinition,
        h.answer_eq hs.placed hspec]

end Store
end DocumentStore
