import DocumentStore.Proofs.Query.Choice
import Mathlib.Data.List.Nodup

/-!
# Which queries are planned

What an index has to look like to serve a query can be read off the query: the
tenant field, the pinned fields in any order, the range field unless the order
begins with it, the order, and then anything.  A query without mistakes is
planned if and only if it has at most one range condition on a field that is
not pinned and some index of its collection looks like that.  All these indexes
have the same score, so the one whose name comes first is chosen, in whatever
order they are listed.
-/

namespace DocumentStore
namespace QuerySpec

/-- The fields other than that of the tenant that equalities pin, each once. -/
def pinnedFields
    (spec : QuerySpec)
    (tenantField : String) :
    List String :=
  ((spec.filters.filter fun c => c.op.isEquality && c.field ≠ tenantField).map
    WhereClause.field).eraseDups

/-- The range conditions on fields that are not pinned. -/
def openRanges
    (spec : QuerySpec)
    (tenantField : String) :
    List WhereClause :=
  spec.filters.filter fun c => c.op.isRange && c.field ∉ spec.pinnedFields tenantField

/-- The order without the tenant field and the pinned fields. -/
def openOrder
    (spec : QuerySpec)
    (tenantField : String) :
    List SortField :=
  spec.order.filter fun o => o.field ≠ tenantField && o.field ∉ spec.pinnedFields tenantField

/-- The field of the first range condition, unless the order begins with it. -/
def leadFields
    (spec : QuerySpec)
    (tenantField : String) :
    List String :=
  match (spec.openRanges tenantField).head? with
  | none => []
  | some range =>
      if (spec.openOrder tenantField).head?.map SortField.field = some range.field then []
      else [range.field]

/-- A query has a collection and a tenant, stays with its tenant, and its order makes sense. -/
structure WellFormed
    (spec : QuerySpec)
    (tenantField : String) :
    Prop where
  collection : spec.collection ≠ "" ∧ '/' ∉ spec.collection.toList
  tenant : spec.tenant ≠ ""
  tenantClauses :
    ∀ c ∈ spec.filters, c.field = tenantField → c.op = .eq ∧ c.value = .string spec.tenant
  order : ((spec.openOrder tenantField).map SortField.field).Nodup
  rangeFirst :
    ∀ range ∈ (spec.openRanges tenantField).head?,
      ∀ o ∈ (spec.openOrder tenantField).tail, o.field ≠ range.field

/--
An index of the collection has the fields that the query needs: the tenant
field, the pinned fields in any order, the range field in any direction unless
the order begins with it, and the order with its directions.
-/
def ServedBy
    (spec : QuerySpec)
    (tenantField : String)
    (definition : IndexDefinition) :
    Prop :=
  definition.collection = spec.collection ∧
    ∃ first block lead trailing,
      definition.fields = first :: (block ++ (lead ++ spec.openOrder tenantField ++ trailing)) ∧
      first.field = tenantField ∧
      (block.map SortField.field).Perm (spec.pinnedFields tenantField) ∧
      lead.map SortField.field = spec.leadFields tenantField

/-- The shape of a query without mistakes. -/
def shapeIn
    (spec : QuerySpec)
    (tenantField : String) :
    Shape where
  equality := spec.pinnedFields tenantField
  ranges := spec.openRanges tenantField
  order := spec.openOrder tenantField
  clauses := spec.filters.filter fun c => c.field ≠ tenantField

/-- The score of every index that serves the query. -/
def points
    (spec : QuerySpec)
    (tenantField : String) :
    Nat :=
  10 * (spec.pinnedFields tenantField).length + 5 * (spec.openRanges tenantField).length +
    3 * (spec.openOrder tenantField).length

end QuerySpec

namespace Shape

variable {spec : QuerySpec} {tenantField : String} {s : Shape}

/-! ### The shape of a query without mistakes -/

/-- No field occurs again if all are different and none was seen before. -/
theorem repeated?_eq_none_iff
    {seen : List String}
    {order : List SortField} :
    repeated? seen order = none ↔
      (order.map SortField.field).Nodup ∧ ∀ o ∈ order, o.field ∉ seen := by
  induction order generalizing seen with
  | nil =>
      simp [repeated?]
  | cons o rest ih =>
      rw [repeated?]
      split
      · next hseen =>
          simp [hseen]
      · next hnew =>
          simp only [ih, List.map_cons, List.nodup_cons, List.mem_map, List.mem_cons]
          constructor
          · rintro ⟨hnodup, hlater⟩
            refine ⟨⟨?_, hnodup⟩, ?_⟩
            · rintro ⟨o', ho', hsame⟩
              exact hlater o' ho' (.inl hsame)
            · rintro o' (rfl | ho')
              · exact hnew
              · exact fun h => hlater o' ho' (.inr h)
          · rintro ⟨⟨hfirst, hnodup⟩, hall⟩
            refine ⟨hnodup, fun o' ho' h => ?_⟩
            rcases h with hsame | hseen
            · exact hfirst ⟨o', ho', hsame⟩
            · exact hall o' (.inr ho') hseen

theorem openRanges_eq
    (htenant : ∀ c ∈ spec.filters, c.field = tenantField →
      c.op = .eq ∧ c.value = .string spec.tenant) :
    ((spec.filters.filter fun c => c.field ≠ tenantField).filter fun c =>
        c.op.isRange && c.field ∉ spec.pinnedFields tenantField) =
      spec.openRanges tenantField := by
  rw [QuerySpec.openRanges, List.filter_filter]
  refine List.filter_congr fun c hc => ?_
  by_cases hfield : c.field = tenantField
  · have hop : c.op.isRange = false := by
      rw [(htenant c hc hfield).1]
      rfl
    simp [hop]
  · simp [hfield]

/-- A query has no condition on the tenant field that asks for anything but the tenant. -/
theorem any_foreignTenant_eq_false_iff :
    spec.filters.any (foreignTenant tenantField spec.tenant) = false ↔
      ∀ c ∈ spec.filters, c.field = tenantField →
        c.op = .eq ∧ c.value = .string spec.tenant := by
  simp [foreignTenant, FilterOp.isEquality]

/-- A query without mistakes has a shape. -/
theorem ofSpec_of_wellFormed
    (h : spec.WellFormed tenantField) :
    ofSpec spec tenantField = .ok (spec.shapeIn tenantField) := by
  have hequality :
      (((spec.filters.filter fun c => c.field ≠ tenantField).filter fun c =>
        c.op.isEquality).map WhereClause.field).eraseDups = spec.pinnedFields tenantField := by
    rw [QuerySpec.pinnedFields, List.filter_filter]
  have hforeign : ¬ spec.filters.any (foreignTenant tenantField spec.tenant) = true := by
    rw [any_foreignTenant_eq_false_iff.2 h.tenantClauses]
    exact Bool.false_ne_true
  have hrepeated : repeated? [] (spec.openOrder tenantField) = none :=
    repeated?_eq_none_iff.2 ⟨h.order, by simp⟩
  unfold ofSpec
  rw [if_neg (not_or.2 h.collection), if_neg h.tenant, if_neg hforeign]
  dsimp only
  rw [hequality, openRanges_eq h.tenantClauses]
  unfold QuerySpec.openOrder at hrepeated
  rw [hrepeated]
  dsimp only
  split
  · next range hrange =>
      rw [if_neg]
      · rfl
      · intro hany
        obtain ⟨o, ho, hfield⟩ := List.any_eq_true.1 hany
        rw [List.drop_one] at ho
        exact h.rangeFirst range hrange o ho (of_decide_eq_true hfield)
  · rfl

/-- A query has a shape if and only if it has no mistakes. -/
theorem ofSpec_eq_ok_iff :
    ofSpec spec tenantField = .ok s ↔
      spec.WellFormed tenantField ∧ s = spec.shapeIn tenantField := by
  constructor
  · intro h
    have hs := isOf_of_ofSpec h
    have hsorted := orderIsOf_of_ofSpec h
    have haccepted := accepted_of_ofSpec h
    have hequality : s.equality = spec.pinnedFields tenantField := by
      rw [hs.equality, hs.clauses, QuerySpec.pinnedFields, List.filter_filter]
    have hranges : s.ranges = spec.openRanges tenantField := by
      rw [hs.ranges, hs.clauses, hequality, openRanges_eq hs.tenant]
    have horder : s.order = spec.openOrder tenantField := by
      rw [hsorted.order, hequality, QuerySpec.openOrder]
    have hwell : spec.WellFormed tenantField := by
      refine ⟨haccepted.collection, haccepted.named, hs.tenant, ?_, ?_⟩
      · rw [← horder]
        exact (repeated?_eq_none_iff.1 haccepted.unrepeated).1
      · rw [← hranges, ← horder, ← List.drop_one]
        exact hsorted.rangeFirst
    exact ⟨hwell, Except.ok.inj (h.symm.trans (ofSpec_of_wellFormed hwell))⟩
  · rintro ⟨hwell, rfl⟩
    exact ofSpec_of_wellFormed hwell

/-! ### The indexes that serve a query -/

/-- The range field that comes before the order of a shape. -/
theorem leading_shapeIn :
    (spec.shapeIn tenantField).leading = spec.leadFields tenantField := by
  unfold leading rangeLeadsOrder range? QuerySpec.shapeIn QuerySpec.leadFields
  dsimp only
  cases hranges : (spec.openRanges tenantField).head? with
  | none =>
      simp
  | some range =>
      cases horder : (spec.openOrder tenantField).head? with
      | none =>
          simp
      | some first =>
          by_cases hsame : range.field = first.field
          · simp [hsame]
          · simp [hsame, Ne.symm hsame]

theorem scoreOrder?_append
    (order trailing : List SortField) :
    scoreOrder? order (order ++ trailing) = some (orderScore * order.length) := by
  induction order with
  | nil =>
      rfl
  | cons o rest ih =>
      rw [List.cons_append, scoreOrder?, if_pos rfl, ih, Option.map_some, List.length_cons,
        Nat.mul_succ, Nat.add_comm]

/-- The score of the fields that follow the pinned ones in an index that serves a shape. -/
theorem scoreRest?_append
    {lead : List SortField}
    (hlead : lead.map SortField.field = s.leading)
    (trailing : List SortField) :
    s.scoreRest? (lead ++ s.order ++ trailing) =
      some (rangeScore * s.range?.toList.length + orderScore * s.order.length) := by
  unfold leading at hlead
  unfold scoreRest?
  cases hrange : s.range? with
  | none =>
      have hnone : lead = [] := by
        rw [hrange] at hlead
        simpa using hlead
      rw [hnone, List.nil_append]
      simp [scoreOrder?_append]
  | some range =>
      rw [hrange] at hlead
      by_cases hleads : s.rangeLeadsOrder = true
      · -- the order begins with the range field
        rw [if_pos hleads, List.map_eq_nil_iff] at hlead
        have hfirst := hleads
        unfold rangeLeadsOrder at hfirst
        rw [hrange] at hfirst
        cases horder : s.order with
        | nil =>
            rw [horder] at hfirst
            cases hfirst
        | cons o order =>
            rw [horder] at hfirst
            have hsame : range.field = o.field := of_decide_eq_true hfirst
            rw [hlead, List.nil_append, List.cons_append]
            simp only [hsame, ne_eq, not_true_eq_false, if_false, if_pos hleads, if_true,
              scoreOrder?_append, Option.map_some, Option.toList_some, List.length_cons,
              List.length_nil, rangeScore, orderScore]
            congr 1
            omega
      · -- the range field comes first
        rw [if_neg hleads] at hlead
        obtain ⟨f, rfl, hf⟩ : ∃ f, lead = [f] ∧ f.field = range.field := by
          simpa [List.map_eq_singleton_iff] using hlead
        simp [hf, hleads, scoreOrder?_append]

/-- An index with the fields that a query needs has the score of the query. -/
theorem score?_of_servedBy
    {definition : IndexDefinition}
    (h : spec.ServedBy tenantField definition)
    (hranges : (spec.openRanges tenantField).length ≤ 1) :
    (spec.shapeIn tenantField).score? tenantField definition =
      some (spec.points tenantField) := by
  obtain ⟨-, first, block, lead, trailing, hfields, hfirst, hblock, hlead⟩ := h
  have hlength : block.length = (spec.shapeIn tenantField).equality.length := by
    rw [← List.length_map (f := SortField.field), hblock.length_eq]
    rfl
  have hpinned : ((spec.shapeIn tenantField).equality.all fun e =>
      block.any fun f => f.field = e) = true := by
    refine List.all_eq_true.2 fun e he => List.any_eq_true.2 ?_
    obtain ⟨f, hf, hfield⟩ := List.mem_map.1 (hblock.mem_iff.2 he)
    exact ⟨f, hf, decide_eq_true hfield⟩
  have hrest := scoreRest?_append (hlead.trans leading_shapeIn.symm) trailing
  have hsingle : (spec.shapeIn tenantField).range?.toList.length =
      (spec.openRanges tenantField).length := by
    change (spec.openRanges tenantField).head?.toList.length = _
    cases hopen : spec.openRanges tenantField with
    | nil =>
        rfl
    | cons range more =>
        rw [hopen, List.length_cons] at hranges
        rw [List.length_cons, Nat.le_zero.1 (Nat.le_of_succ_le_succ hranges)]
        rfl
  unfold score?
  rw [hfields]
  dsimp only
  rw [← hlength, List.take_left, List.drop_left, if_neg (not_not.2 hfirst), if_neg (by simp),
    if_pos hpinned]
  change (scoreRest? _ (lead ++ (spec.shapeIn tenantField).order ++ trailing)).map _ = _
  rw [hrest, Option.map_some, hsingle, hlength]
  exact congrArg some (Nat.add_assoc ..).symm

/-- An index of the collection with a score has the fields that the query needs. -/
theorem servedBy_of_score?
    {definition : IndexDefinition}
    {score : Nat}
    (hspec : spec.WellFormed tenantField)
    (hcollection : definition.collection = spec.collection)
    (h : (spec.shapeIn tenantField).score? tenantField definition = some score) :
    spec.ServedBy tenantField definition := by
  obtain ⟨l⟩ := nonempty_layout h
  obtain ⟨below, hrest⟩ := exists_scoreRest? h
  rw [l.drop_pinned] at hrest
  obtain ⟨lead, trailing, hfields, hlead⟩ := exists_lead_of_scoreRest? hrest
  refine ⟨hcollection, l.first, l.block, lead, trailing, ?_, l.first_eq, ?_, ?_⟩
  · exact l.fields_eq.trans (by rw [hfields]; rfl)
  · exact l.perm_block (isOf_of_ofSpec (ofSpec_of_wellFormed hspec))
  · rw [hlead, leading_shapeIn]

end Shape

namespace Plan

variable {spec : QuerySpec} {tenantField : String} {definitions : List IndexDefinition}

/-- The candidates for a query are the indexes that serve it, all with the same score. -/
theorem mem_candidates_iff_servedBy
    (hspec : spec.WellFormed tenantField)
    (hranges : (spec.openRanges tenantField).length ≤ 1)
    {candidate : Nat × IndexDefinition} :
    candidate ∈ candidates (spec.shapeIn tenantField) spec.collection tenantField definitions ↔
      candidate.1 = spec.points tenantField ∧ candidate.2 ∈ definitions ∧
        spec.ServedBy tenantField candidate.2 := by
  obtain ⟨score, definition⟩ := candidate
  rw [mem_candidates_iff]
  constructor
  · rintro ⟨hmem, hcollection, hscore⟩
    have hserved := Shape.servedBy_of_score? hspec hcollection hscore
    rw [Shape.score?_of_servedBy hserved hranges] at hscore
    exact ⟨(Option.some.inj hscore).symm, hmem, hserved⟩
  · rintro ⟨rfl, hmem, hserved⟩
    exact ⟨hmem, hserved.1, Shape.score?_of_servedBy hserved hranges⟩

/-! ### The best of several indexes, in whatever order -/

variable {served listed : List (Nat × IndexDefinition)} {p q : Nat × IndexDefinition}

/-- The best of some indexes is beaten neither by them nor by the best so far. -/
theorem not_beats_of_foldl_better
    {best : Option (Nat × IndexDefinition)}
    (h : served.foldl better best = some p) :
    (∀ q ∈ best, ¬ Beats q p) ∧ ∀ q ∈ served, ¬ Beats q p := by
  induction served generalizing best with
  | nil =>
      obtain rfl : best = some p := h
      refine ⟨?_, by simp⟩
      rintro q ⟨⟩ hself
      exact hself.asymm hself
  | cons r rest ih =>
      rw [List.foldl_cons] at h
      obtain ⟨hbetter, hrest⟩ := ih h
      rw [List.forall_mem_cons]
      cases best with
      | none =>
          exact ⟨by simp, hbetter r rfl, hrest⟩
      | some q =>
          by_cases hr : Beats r q
          · rw [better_of_beats hr] at hbetter
            have hrp := hbetter r rfl
            refine ⟨?_, hrp, hrest⟩
            rintro q ⟨⟩ hqp
            exact hrp (hr.of_not_beats hqp.asymm)
          · rw [better_of_not_beats hr] at hbetter
            have hqp := hbetter q rfl
            refine ⟨?_, fun hrp => hr (hrp.of_not_beats hqp), hrest⟩
            rintro q ⟨⟩
            exact hqp

/-- There is a best index unless there is no index. -/
theorem foldl_better_eq_none_iff
    {best : Option (Nat × IndexDefinition)} :
    served.foldl better best = none ↔ best = none ∧ served = [] := by
  induction served generalizing best with
  | nil =>
      simp
  | cons r rest ih =>
      have hbetter : better best r ≠ none := by
        unfold better
        split
        · exact Option.some_ne_none r
        · split <;> exact Option.some_ne_none _
      rw [List.foldl_cons, ih]
      simp [hbetter]

/-- Indexes that do not beat each other have the same score and the same name. -/
theorem eq_of_not_beats
    (h : ¬ Beats p q)
    (h' : ¬ Beats q p) :
    p.1 = q.1 ∧ p.2.name = q.2.name := by
  unfold Beats at h h'
  rw [not_or, Nat.not_lt, not_and] at h h'
  have hscore : p.1 = q.1 := Nat.le_antisymm h.1 h'.1
  exact ⟨hscore, le_antisymm (not_lt.1 (h'.2 hscore.symm)) (not_lt.1 (h.2 hscore))⟩

/-- Among indexes with different names the best does not depend on the order. -/
theorem foldl_better_perm
    (hperm : listed.Perm served)
    (hnames : ∀ p ∈ served, ∀ q ∈ served, p.1 = q.1 → p.2.name = q.2.name → p = q) :
    listed.foldl better none = served.foldl better none := by
  cases hserved : served.foldl better none with
  | none =>
      obtain ⟨-, rfl⟩ := foldl_better_eq_none_iff.1 hserved
      rw [hperm.eq_nil]
      rfl
  | some p =>
      cases hlisted : listed.foldl better none with
      | none =>
          obtain ⟨-, rfl⟩ := foldl_better_eq_none_iff.1 hlisted
          rw [hperm.symm.eq_nil] at hserved
          cases hserved
      | some q =>
          have hp : p ∈ served := (mem_of_foldl_better hserved).resolve_left (by simp)
          have hq : q ∈ listed := (mem_of_foldl_better hlisted).resolve_left (by simp)
          have hpq := (not_beats_of_foldl_better hlisted).2 p (hperm.mem_iff.2 hp)
          have hqp := (not_beats_of_foldl_better hserved).2 q (hperm.mem_iff.1 hq)
          obtain ⟨hscore, hname⟩ := eq_of_not_beats hpq hqp
          rw [hnames p hp q (hperm.mem_iff.1 hq) hscore hname]

/-- The indexes that serve a shape are the same in whatever order they are listed. -/
theorem candidates_perm
    {listed : List IndexDefinition}
    (hperm : listed.Perm definitions)
    (shape : Shape)
    (collection tenantField : String) :
    (candidates shape collection tenantField listed).Perm
      (candidates shape collection tenantField definitions) :=
  (hperm.filter _).filterMap _

/-- A plan does not depend on the order in which indexes with different names are listed. -/
theorem ofSpec_perm
    (hnames : (definitions.map IndexDefinition.name).Nodup)
    {listed : List IndexDefinition}
    (hperm : listed.Perm definitions) :
    ofSpec spec listed tenantField = ofSpec spec definitions tenantField := by
  unfold ofSpec
  cases Shape.ofSpec spec tenantField with
  | error fault =>
      rfl
  | ok shape =>
      dsimp only
      rw [foldl_better_perm (candidates_perm hperm shape spec.collection tenantField)]
      rintro ⟨score, d⟩ hd ⟨score', d'⟩ hd' hscore hname
      obtain ⟨hmem, -⟩ := mem_candidates_iff.1 hd
      obtain ⟨hmem', -⟩ := mem_candidates_iff.1 hd'
      exact Prod.ext hscore (List.inj_on_of_nodup_map hnames hmem hmem' hname)

/-- A query without mistakes is planned if and only if an index serves it. -/
theorem exists_ofSpec_iff_servedBy
    (hspec : spec.WellFormed tenantField) :
    (∃ plan, ofSpec spec definitions tenantField = .ok plan) ↔
      (spec.openRanges tenantField).length ≤ 1 ∧
        ∃ definition ∈ definitions, spec.ServedBy tenantField definition := by
  constructor
  · rintro ⟨plan, hplan⟩
    obtain ⟨shape, definition, score, hshape, hranges, hmem, hcollection, hscore, -⟩ :=
      eq_onIndex_of_ofSpec hplan
    obtain ⟨-, rfl⟩ := Shape.ofSpec_eq_ok_iff.1 hshape
    exact ⟨hranges, definition, hmem, Shape.servedBy_of_score? hspec hcollection hscore⟩
  · rintro ⟨hranges, definition, hmem, hserved⟩
    have hcandidate : (spec.points tenantField, definition) ∈
        candidates (spec.shapeIn tenantField) spec.collection tenantField definitions :=
      (mem_candidates_iff_servedBy hspec hranges).2 ⟨rfl, hmem, hserved⟩
    cases hbest : (candidates (spec.shapeIn tenantField) spec.collection tenantField
        definitions).foldl better none with
    | none =>
        rw [(foldl_better_eq_none_iff.1 hbest).2] at hcandidate
        cases hcandidate
    | some found =>
        exact ⟨_, ofSpec_eq_ok_iff.2 ⟨_, _, _, Shape.ofSpec_of_wellFormed hspec, hranges, hbest,
          rfl⟩⟩

/-- A plan is for the index with the first name among those that serve the query. -/
theorem first_of_ofSpec
    {plan : Plan}
    (hplan : ofSpec spec definitions tenantField = .ok plan) :
    plan.score = spec.points tenantField ∧
    ∃ definition ∈ definitions, spec.ServedBy tenantField definition ∧
      plan = onIndex spec (spec.shapeIn tenantField) definition plan.score ∧
      ∀ other ∈ definitions, spec.ServedBy tenantField other →
        definition.name ≤ other.name := by
  obtain ⟨shape, score, definition, hshape, hranges, hbest, rfl⟩ := ofSpec_eq_ok_iff.1 hplan
  obtain ⟨hspec, rfl⟩ := Shape.ofSpec_eq_ok_iff.1 hshape
  obtain ⟨hscore, hmem, hserved⟩ := (mem_candidates_iff_servedBy hspec hranges).1
    ((mem_of_foldl_better hbest).resolve_left (by simp))
  refine ⟨hscore, definition, hmem, hserved, rfl, fun other hother hothers => ?_⟩
  have hbeaten := (not_beats_of_foldl_better hbest).2 (spec.points tenantField, other)
    ((mem_candidates_iff_servedBy hspec hranges).2 ⟨rfl, hother, hothers⟩)
  exact not_lt.1 fun hlt => hbeaten (.inr ⟨hscore.symm, hlt⟩)

/--
A query without mistakes is planned if and only if it has at most one range
condition on a field that is not pinned and one of the indexes serves it.  The
plan is for the index whose name comes first among all that serve the query, its
score counts ten for each pinned field, five for the range condition and three
for each field of the order, and it does not matter in which order the indexes
are listed.
-/
theorem ofSpec_accepts_served
    (hspec : spec.WellFormed tenantField)
    (hnames : (definitions.map IndexDefinition.name).Nodup) :
    ((∃ plan, ofSpec spec definitions tenantField = .ok plan) ↔
      (spec.openRanges tenantField).length ≤ 1 ∧
        ∃ definition ∈ definitions, spec.ServedBy tenantField definition) ∧
    (∀ plan, ofSpec spec definitions tenantField = .ok plan →
      plan.score =
        10 * (spec.pinnedFields tenantField).length + 5 * (spec.openRanges tenantField).length +
          3 * (spec.openOrder tenantField).length ∧
      ∃ definition ∈ definitions, spec.ServedBy tenantField definition ∧
        plan.index = definition.name ∧
        ∀ other ∈ definitions, spec.ServedBy tenantField other → other ≠ definition →
          definition.name < other.name) ∧
    ∀ listed : List IndexDefinition, listed.Perm definitions →
      ofSpec spec listed tenantField = ofSpec spec definitions tenantField := by
  refine ⟨exists_ofSpec_iff_servedBy hspec, ?_, fun listed => ofSpec_perm hnames⟩
  intro plan hplan
  obtain ⟨hscore, definition, hmem, hserved, heq, hfirst⟩ := first_of_ofSpec hplan
  refine ⟨hscore, definition, hmem, hserved, by rw [heq]; rfl, ?_⟩
  intro other hother hothers hne
  refine lt_of_le_of_ne (hfirst other hother hothers) fun hname => hne ?_
  exact (List.inj_on_of_nodup_map hnames hmem hother hname).symm

/-- The open orders from a total on, the dearest first. -/
def dearOpenOrders : QuerySpec where
  collection := "orders"
  filters := [⟨"total", .ge, .ofNat 3⟩, ⟨"state", .eq, .string "open"⟩]
  order := [⟨"state", .asc⟩, ⟨"total", .desc⟩]
  limit := none
  tenant := "acme"

/-- Indexes of the orders; all but the last serve the query. -/
def orderIndexes : List IndexDefinition :=
  [⟨"z", "orders", [⟨"tenantId", .asc⟩, ⟨"state", .asc⟩, ⟨"total", .desc⟩]⟩,
   ⟨"by_state", "orders", [⟨"tenantId", .asc⟩, ⟨"state", .desc⟩, ⟨"total", .desc⟩, ⟨"item", .asc⟩]⟩,
   ⟨"by_total", "orders", [⟨"tenantId", .asc⟩, ⟨"total", .desc⟩]⟩]

/-- The index with the first name that serves the query is chosen, also when they are reversed. -/
theorem dearOpenOrders_plan :
    dearOpenOrders.WellFormed "tenantId" ∧
    (orderIndexes.map IndexDefinition.name).Nodup ∧
    ∃ plan, ofSpec dearOpenOrders orderIndexes "tenantId" = .ok plan ∧
      plan.index = "by_state" ∧ plan.score = 18 ∧
      ofSpec dearOpenOrders orderIndexes.reverse "tenantId" = .ok plan := by
  have hspec : dearOpenOrders.WellFormed "tenantId" := by
    constructor <;> decide +kernel
  have hnames : (orderIndexes.map IndexDefinition.name).Nodup := by decide +kernel
  obtain ⟨hplanned, hplan, hperm⟩ := ofSpec_accepts_served hspec hnames
  have hserved : dearOpenOrders.ServedBy "tenantId"
      ⟨"by_state", "orders",
        [⟨"tenantId", .asc⟩, ⟨"state", .desc⟩, ⟨"total", .desc⟩, ⟨"item", .asc⟩]⟩ := by
    refine ⟨rfl, ⟨"tenantId", .asc⟩, [⟨"state", .desc⟩], [], [⟨"item", .asc⟩], ?_, rfl, ?_, ?_⟩ <;>
      decide +kernel
  obtain ⟨plan, hok⟩ := hplanned.2 ⟨by decide +kernel, _, .tail _ (.head _), hserved⟩
  refine ⟨hspec, hnames, plan, hok, ?_, (hplan plan hok).1.trans (by decide +kernel), ?_⟩
  · have hindex : (ofSpec dearOpenOrders orderIndexes "tenantId").toOption.map Plan.index =
        some "by_state" := by
      decide +kernel
    rw [hok] at hindex
    exact Option.some.inj hindex
  · rw [hperm _ orderIndexes.reverse_perm, hok]

end Plan
end DocumentStore
