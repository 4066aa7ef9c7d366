import DocumentStore.Proofs.Query.Answer

/-!
# The order of an answer

An answer is never sorted: its documents come in the order of the index that
was chosen for the query.  Such an index goes on, after the tenant and the
pinned fields, with the field of the range condition and then with the order
that was asked for.  The tenant and the pinned fields are the same in all
documents of the answer, so they do not count, and the answer is in the order
that was asked for, unless there is a range condition on a field that this
order does not name.  Then the range field is the first to sort by.
-/

namespace DocumentStore

/-- Compare two documents by a field; documents without a value for it are not told apart. -/
def SortField.order
    (f : SortField)
    (tenantField : String)
    (d e : Document) :
    Ordering :=
  match d.keyValue? tenantField f.field, e.keyValue? tenantField f.field with
  | some a, some b => KeyPart.order ⟨a, f.direction⟩ ⟨b, f.direction⟩
  | _, _ => .eq

/-- Compare two documents by one field after the other. -/
def Document.orderBy
    (tenantField : String) :
    List SortField → Document → Document → Ordering
  | [], _, _ => .eq
  | f :: rest, d, e => (f.order tenantField d e).then (orderBy tenantField rest d e)

/-- Whether a document has a value with a place in keys for each of some fields. -/
def Document.Covers
    (tenantField : String)
    (fields : List SortField)
    (d : Document) :
    Prop :=
  ∀ f ∈ fields, (d.keyValue? tenantField f.field).isSome = true

namespace QuerySpec

/-- Whether a field is pinned by an equality. -/
def pins
    (spec : QuerySpec)
    (field : String) :
    Bool :=
  spec.filters.any fun c => c.op.isEquality && c.field = field

/-- The range conditions on fields that are neither fixed nor named in the order. -/
def freeRanges
    (spec : QuerySpec)
    (tenantField : String) :
    List WhereClause :=
  spec.filters.filter fun c =>
    c.op.isRange && c.field ≠ tenantField && !spec.pins c.field &&
      !spec.order.any fun o => o.field = c.field

end QuerySpec

namespace Document

variable {tenantField : String} {d e : Document} {fields more : List SortField}

theorem orderBy_append :
    orderBy tenantField (fields ++ more) d e =
      (orderBy tenantField fields d e).then (orderBy tenantField more d e) := by
  induction fields with
  | nil =>
      rfl
  | cons f rest ih =>
      rw [List.cons_append, orderBy, orderBy, ih, Ordering.then_assoc]

theorem orderBy_eq_eq
    (h : ∀ f ∈ fields, f.order tenantField d e = .eq) :
    orderBy tenantField fields d e = .eq := by
  induction fields with
  | nil =>
      rfl
  | cons f rest ih =>
      obtain ⟨hf, hrest⟩ := List.forall_mem_cons.1 h
      rw [orderBy, hf, ih hrest]
      rfl

theorem orderBy_filter
    {p : SortField → Bool}
    (h : ∀ f ∈ fields, p f = false → f.order tenantField d e = .eq) :
    orderBy tenantField (fields.filter p) d e = orderBy tenantField fields d e := by
  induction fields with
  | nil =>
      rfl
  | cons f rest ih =>
      obtain ⟨hf, hrest⟩ := List.forall_mem_cons.1 h
      cases hp : p f with
      | true =>
          rw [List.filter_cons_of_pos hp, orderBy, orderBy, ih hrest]
      | false =>
          rw [List.filter_cons_of_neg (by simp [hp]), orderBy, ih hrest, hf hp]
          rfl

theorem orderBy_ne_gt_of_append
    (h : orderBy tenantField (fields ++ more) d e ≠ .gt) :
    orderBy tenantField fields d e ≠ .gt := by
  intro hgt
  rw [orderBy_append, hgt] at h
  exact h rfl

theorem order_eq_eq
    {f : SortField}
    (h : d.keyValue? tenantField f.field = e.keyValue? tenantField f.field) :
    f.order tenantField d e = .eq := by
  unfold SortField.order
  rw [h]
  cases e.keyValue? tenantField f.field with
  | none =>
      rfl
  | some v =>
      dsimp only
      rw [KeyPart.order_eq_compare rfl]
      exact Std.ReflOrd.compare_self

/-- Keys are ordered as the fields order their documents. -/
theorem order_eq_orderBy
    {key key' : Key}
    (hkey : fields.mapM (Index.partFor? tenantField d) = some key)
    (hkey' : fields.mapM (Index.partFor? tenantField e) = some key') :
    key.order key' = orderBy tenantField fields d e := by
  induction fields generalizing key key' with
  | nil =>
      cases hkey
      cases hkey'
      rfl
  | cons f rest ih =>
      rw [List.mapM_cons, Index.partFor?_eq] at hkey hkey'
      obtain ⟨part, hpart, hkey⟩ := Option.bind_eq_some_iff.1 hkey
      obtain ⟨parts, hparts, hkey⟩ := Option.bind_eq_some_iff.1 hkey
      obtain ⟨part', hpart', hkey'⟩ := Option.bind_eq_some_iff.1 hkey'
      obtain ⟨parts', hparts', hkey'⟩ := Option.bind_eq_some_iff.1 hkey'
      obtain ⟨v, hv, rfl⟩ := Option.map_eq_some_iff.1 hpart
      obtain ⟨v', hv', rfl⟩ := Option.map_eq_some_iff.1 hpart'
      cases hkey
      cases hkey'
      rw [Key.order, ih hparts hparts', orderBy, SortField.order, hv, hv']

theorem covers_of_mapM
    {key : Key}
    (hkey : fields.mapM (Index.partFor? tenantField d) = some key) :
    d.Covers tenantField fields := by
  induction fields generalizing key with
  | nil =>
      intro f hf
      cases hf
  | cons f rest ih =>
      rw [List.mapM_cons, Index.partFor?_eq] at hkey
      obtain ⟨part, hpart, hkey⟩ := Option.bind_eq_some_iff.1 hkey
      obtain ⟨parts, hparts, -⟩ := Option.bind_eq_some_iff.1 hkey
      obtain ⟨v, hv, -⟩ := Option.map_eq_some_iff.1 hpart
      exact List.forall_mem_cons.2 ⟨Option.isSome_of_mem hv, ih hparts⟩

end Document

namespace Shape

variable {spec : QuerySpec} {tenantField : String} {s : Shape}

/-- What the shape of a query keeps of its order. -/
structure OrderIsOf
    (spec : QuerySpec)
    (tenantField : String)
    (s : Shape) :
    Prop where
  order : s.order = spec.order.filter fun o => o.field ≠ tenantField && o.field ∉ s.equality
  rangeFirst : ∀ range ∈ s.range?, ∀ o ∈ s.order.drop 1, o.field ≠ range.field

theorem orderIsOf_of_ofSpec
    (h : ofSpec spec tenantField = .ok s) :
    s.OrderIsOf spec tenantField :=
  have haccepted := accepted_of_ofSpec h
  ⟨haccepted.order, haccepted.rangeFirst⟩

/-- An index that has a score for a shape has one for the fields after the pinned ones. -/
theorem exists_scoreRest?
    {definition : IndexDefinition}
    {score : Nat}
    (h : s.score? tenantField definition = some score) :
    ∃ below, s.scoreRest? ((definition.fields.drop 1).drop s.equality.length) = some below := by
  obtain ⟨first, rest, below, hfields, -, -, -, hrest⟩ := exists_of_score?_eq_some h
  refine ⟨below, ?_⟩
  rw [hfields]
  exact hrest

/-- Fields that have a score for an order begin with it. -/
theorem prefix_of_scoreOrder?
    {order fields : List SortField}
    {score : Nat}
    (h : scoreOrder? order fields = some score) :
    order <+: fields := by
  induction order generalizing fields score with
  | nil =>
      exact List.nil_prefix
  | cons o rest ih =>
      cases fields with
      | nil =>
          cases h
      | cons f fields =>
          rw [scoreOrder?] at h
          split at h
          · next heq =>
              obtain ⟨below, hrest, -⟩ := Option.map_eq_some_iff.1 h
              rw [heq]
              exact (List.prefix_cons_inj o).2 (ih hrest)
          · cases h

/-- The range field, unless the order begins with it. -/
def leading (s : Shape) : List String :=
  if s.rangeLeadsOrder then [] else s.range?.toList.map WhereClause.field

/-- The fields after the pinned ones are the range field, unless it is in the order, and the order. -/
theorem exists_lead_of_scoreRest?
    {fields : List SortField}
    {score : Nat}
    (h : s.scoreRest? fields = some score) :
    ∃ lead trailing, fields = lead ++ s.order ++ trailing ∧
      lead.map SortField.field = s.leading := by
  unfold scoreRest? at h
  unfold leading
  split at h
  · next hnone =>
      obtain ⟨trailing, htrailing⟩ := prefix_of_scoreOrder? h
      refine ⟨[], trailing, htrailing.symm, ?_⟩
      rw [hnone]
      split <;> rfl
  · cases h
  · next range f rest hrange =>
      split at h
      · cases h
      · next hfield =>
          have hfield : f.field = range.field := Decidable.not_not.1 hfield
          split at h
          · next hleads =>
              rw [if_pos hleads]
              split at h
              · cases h
              · next o order horder =>
                  split at h
                  · next hdirection =>
                      obtain ⟨below, hscore, -⟩ := Option.map_eq_some_iff.1 h
                      obtain ⟨trailing, htrailing⟩ := prefix_of_scoreOrder? hscore
                      unfold rangeLeadsOrder at hleads
                      rw [hrange, horder] at hleads
                      have hsame : range.field = o.field := of_decide_eq_true hleads
                      have hhead : f = o := by
                        obtain ⟨name, direction⟩ := f
                        obtain ⟨name', direction'⟩ := o
                        cases hfield.trans hsame
                        cases hdirection
                        rfl
                      refine ⟨[], trailing, ?_, rfl⟩
                      rw [horder, hhead, ← htrailing]
                      rfl
                  · cases h
          · next hleads =>
              rw [if_neg hleads, hrange]
              obtain ⟨below, hscore, -⟩ := Option.map_eq_some_iff.1 h
              obtain ⟨trailing, htrailing⟩ := prefix_of_scoreOrder? hscore
              refine ⟨[f], trailing, ?_, ?_⟩
              · rw [← htrailing]
                rfl
              · rw [List.map_singleton, hfield]
                rfl

/-- The order of a shape is among the fields of an index that serves it. -/
theorem order_subset_of_score?
    {definition : IndexDefinition}
    {score : Nat}
    (h : s.score? tenantField definition = some score) :
    s.order ⊆ definition.fields := by
  obtain ⟨below, hrest⟩ := exists_scoreRest? h
  obtain ⟨lead, trailing, hfields, -⟩ := exists_lead_of_scoreRest? hrest
  intro f hf
  have hdropped : f ∈ (definition.fields.drop 1).drop s.equality.length := by
    rw [hfields]
    exact List.mem_append_left _ (List.mem_append_right _ hf)
  exact List.mem_of_mem_drop (List.mem_of_mem_drop hdropped)

/-- A field other than that of the tenant is pinned in the shape if it is pinned in the query. -/
theorem IsOf.mem_equality_iff_pins
    (hs : s.IsOf spec tenantField)
    {field : String}
    (hfield : field ≠ tenantField) :
    field ∈ s.equality ↔ spec.pins field = true := by
  rw [hs.mem_equality_iff, hs.clauses, QuerySpec.pins, List.any_eq_true]
  constructor
  · rintro ⟨c, hc, hop, rfl⟩
    exact ⟨c, (List.mem_filter.1 hc).1, by simp [hop]⟩
  · rintro ⟨c, hc, hmatch⟩
    obtain ⟨hop, heq⟩ := Bool.and_eq_true_iff.1 hmatch
    have heq : c.field = field := of_decide_eq_true heq
    refine ⟨c, List.mem_filter.2 ⟨hc, ?_⟩, hop, heq⟩
    simpa [heq] using hfield

/-- The range conditions that are free in a query are those of its shape that the order lacks. -/
theorem IsOf.freeRanges_eq
    (hs : s.IsOf spec tenantField)
    (ho : s.OrderIsOf spec tenantField) :
    spec.freeRanges tenantField =
      s.ranges.filter fun c => !s.order.any fun o => o.field = c.field := by
  rw [hs.ranges, hs.clauses, List.filter_filter, List.filter_filter, QuerySpec.freeRanges]
  refine List.filter_congr fun c _ => ?_
  by_cases htenant : c.field = tenantField
  · simp [htenant]
  · by_cases hpinned : c.field ∈ s.equality
    · have hpins := (hs.mem_equality_iff_pins htenant).1 hpinned
      simp [hpinned, hpins]
    · have hpins : spec.pins c.field = false := by
        rw [← Bool.not_eq_true, ← hs.mem_equality_iff_pins htenant]
        exact hpinned
      have hany : (s.order.any fun o => o.field = c.field) =
          spec.order.any fun o => o.field = c.field := by
        rw [ho.order, List.any_filter]
        refine congrArg (fun p => spec.order.any p) (funext fun o => ?_)
        by_cases hfield : o.field = c.field
        · simp [hfield, htenant, hpinned]
        · simp [hfield]
      simp [htenant, hpinned, hpins, hany, Bool.and_comm]

/-- The order names the range field if and only if it begins with it. -/
theorem OrderIsOf.rangeLeadsOrder_iff
    (ho : s.OrderIsOf spec tenantField)
    {range : WhereClause}
    (hrange : s.range? = some range) :
    s.rangeLeadsOrder = true ↔ (s.order.any fun o => o.field = range.field) = true := by
  have hlater := ho.rangeFirst range hrange
  unfold rangeLeadsOrder
  rw [hrange]
  cases horder : s.order with
  | nil =>
      simp
  | cons o rest =>
      rw [horder] at hlater
      have hrest : (rest.any fun o => o.field = range.field) = false := by
        rw [List.any_eq_false]
        intro o' ho' hfield
        exact hlater o' ho' (of_decide_eq_true hfield)
      simp only [List.head?_cons, List.any_cons, hrest, Bool.or_false, decide_eq_true_eq]
      exact eq_comm

/-- The field that leads is that of the free range condition. -/
theorem IsOf.leading_eq
    (hs : s.IsOf spec tenantField)
    (ho : s.OrderIsOf spec tenantField)
    (hranges : s.ranges.length ≤ 1) :
    s.leading = (spec.freeRanges tenantField).map WhereClause.field := by
  rw [hs.freeRanges_eq ho]
  unfold leading
  match hlist : s.ranges with
  | [] =>
      have hnone : s.range? = none := by
        rw [range?, hlist]
        rfl
      rw [hnone]
      split <;> rfl
  | [range] =>
      have hrange : s.range? = some range := by
        rw [range?, hlist]
        rfl
      have hleads := ho.rangeLeadsOrder_iff hrange
      rw [hrange]
      cases hany : s.order.any fun o => o.field = range.field with
      | true =>
          rw [if_pos (hleads.2 hany)]
          simp [hany]
      | false =>
          rw [if_neg (by simp [hleads, hany])]
          simp [hany]
  | _ :: _ :: _ =>
      rw [hlist] at hranges
      simp at hranges

end Shape

namespace Store

variable {s : Store} {spec : QuerySpec} {shape : Shape}

/-- Documents that satisfy the conditions of a query have the same value for a pinned field. -/
theorem keyValue?_of_pinned
    {tenantField field : String}
    {doc : Document}
    {c : WhereClause}
    (hop : c.op.isEquality = true)
    (hfield : c.field = field)
    (hsatisfied : c.satisfiedBy tenantField doc = true) :
    doc.keyValue? tenantField field = KeyValue.ofJson? c.value ∧
      (KeyValue.ofJson? c.value).isSome = true := by
  obtain ⟨actual, wanted, hactual, hwanted, hholds⟩ := WhereClause.exists_of_satisfiedBy hsatisfied
  rw [show c.op = .eq from of_decide_eq_true hop] at hholds
  have hequal : actual = wanted := of_decide_eq_true hholds
  rw [← hfield, hactual, hwanted, hequal]
  exact ⟨rfl, rfl⟩

/-- In a field that is fixed by a query all documents that are asked for agree. -/
theorem keyValue?_of_matching
    (definition : IndexDefinition)
    (hs : shape.IsOf spec s.catalog.tenantField)
    {field : String}
    (hfixed : field = s.catalog.tenantField ∨ field ∈ shape.equality) :
    ∃ v, ∀ doc ∈ s.matching definition spec,
      doc.keyValue? s.catalog.tenantField field = some v := by
  rcases hfixed with rfl | hpinned
  · refine ⟨.string spec.tenant, fun doc hdoc => ?_⟩
    obtain ⟨-, -, -, htenant, -⟩ := mem_matching_iff.1 hdoc
    rw [Document.keyValue?, if_pos rfl, htenant]
  · obtain ⟨c, hc, hop, hfield⟩ := hs.mem_equality_iff.1 hpinned
    rw [hs.clauses] at hc
    have hpin : ∀ doc ∈ s.matching definition spec,
        doc.keyValue? s.catalog.tenantField field = KeyValue.ofJson? c.value ∧
          (KeyValue.ofJson? c.value).isSome = true := by
      intro doc hdoc
      obtain ⟨-, -, -, -, hsatisfied⟩ := mem_matching_iff.1 hdoc
      exact keyValue?_of_pinned hop hfield (hsatisfied c (List.mem_filter.1 hc).1)
    cases hvalue : KeyValue.ofJson? c.value with
    | none =>
        refine ⟨.null, fun doc hdoc => ?_⟩
        have hsome := (hpin doc hdoc).2
        rw [hvalue] at hsome
        cases hsome
    | some v =>
        refine ⟨v, fun doc hdoc => ?_⟩
        rw [(hpin doc hdoc).1, hvalue]

/-- What comes no later in an index is not after by the fields of the index. -/
theorem orderBy_ne_gt_of_notAfter
    {definition : IndexDefinition}
    {d e : Document}
    (hd : d ∈ s.matching definition spec)
    (he : e ∈ s.matching definition spec)
    (h : Index.notAfter definition s.catalog.tenantField d e = true) :
    Document.orderBy s.catalog.tenantField definition.fields d e ≠ .gt := by
  obtain ⟨-, -, ⟨key, hkey⟩, -, -⟩ := mem_matching_iff.1 hd
  obtain ⟨-, -, ⟨key', hkey'⟩, -, -⟩ := mem_matching_iff.1 he
  intro hgt
  rw [← Document.order_eq_orderBy hkey hkey'] at hgt
  simp [Index.notAfter, Index.placeOf, hkey, hkey', hgt] at h

/-- The tenant and the pinned fields do not tell documents of an answer apart. -/
theorem orderBy_rest
    {definition : IndexDefinition}
    (hs : shape.IsOf spec s.catalog.tenantField)
    (l : shape.Layout s.catalog.tenantField definition.fields)
    {d e : Document}
    (hd : d ∈ s.matching definition spec)
    (he : e ∈ s.matching definition spec) :
    Document.orderBy s.catalog.tenantField definition.fields d e =
      Document.orderBy s.catalog.tenantField l.rest d e := by
  have hagree : ∀ f : SortField,
      f.field = s.catalog.tenantField ∨ f.field ∈ shape.equality →
      f.order s.catalog.tenantField d e = .eq := by
    intro f hfixed
    obtain ⟨v, hv⟩ := keyValue?_of_matching definition hs hfixed
    exact Document.order_eq_eq ((hv d hd).trans (hv e he).symm)
  have hblock : Document.orderBy s.catalog.tenantField l.block d e = .eq :=
    Document.orderBy_eq_eq fun f hf => hagree f (.inr (l.mem_equality hs hf))
  calc
    Document.orderBy s.catalog.tenantField definition.fields d e
    _ = Document.orderBy s.catalog.tenantField (l.first :: (l.block ++ l.rest)) d e :=
      congrArg (fun fields => Document.orderBy s.catalog.tenantField fields d e) l.fields_eq
    _ = Document.orderBy s.catalog.tenantField l.rest d e := by
      rw [Document.orderBy, Document.orderBy_append, hagree l.first (.inl l.first_eq), hblock]
      rfl

section

variable {definition : IndexDefinition}
  (hshape : Shape.ofSpec spec s.catalog.tenantField = .ok shape)

include hshape

/-- The order of a query and that of its shape tell documents of an answer apart alike. -/
theorem orderBy_order
    {d e : Document}
    (hd : d ∈ s.matching definition spec)
    (he : e ∈ s.matching definition spec) :
    Document.orderBy s.catalog.tenantField shape.order d e =
      Document.orderBy s.catalog.tenantField spec.order d e := by
  rw [(Shape.orderIsOf_of_ofSpec hshape).order]
  refine Document.orderBy_filter fun f _ hleft => ?_
  have hfixed : f.field = s.catalog.tenantField ∨ f.field ∈ shape.equality := by
    by_contra hfree
    rw [not_or] at hfree
    simp [hfree.1, hfree.2] at hleft
  obtain ⟨v, hv⟩ := keyValue?_of_matching definition (Shape.isOf_of_ofSpec hshape) hfixed
  exact Document.order_eq_eq ((hv d hd).trans (hv e he).symm)

/-- A document of an answer has a value for every field of the order. -/
theorem covers_order
    {score : Nat}
    (hscore : shape.score? s.catalog.tenantField definition = some score)
    {doc : Document}
    (hdoc : doc ∈ s.matching definition spec) :
    doc.Covers s.catalog.tenantField spec.order := by
  intro f hf
  by_cases hfixed : f.field = s.catalog.tenantField ∨ f.field ∈ shape.equality
  · obtain ⟨v, hv⟩ := keyValue?_of_matching definition (Shape.isOf_of_ofSpec hshape) hfixed
    rw [hv doc hdoc]
    rfl
  · obtain ⟨-, -, ⟨key, hkey⟩, -, -⟩ := mem_matching_iff.1 hdoc
    refine Document.covers_of_mapM hkey f (Shape.order_subset_of_score? hscore ?_)
    rw [not_or] at hfixed
    rw [(Shape.orderIsOf_of_ofSpec hshape).order, List.mem_filter]
    exact ⟨hf, by simp [hfixed.1, hfixed.2]⟩

/--
An answer is sorted by the field of the free range condition, if there is one,
and then by the order of the query.
-/
theorem exists_sorted_answer
    {score : Nat}
    (hranges : shape.ranges.length ≤ 1)
    (hscore : shape.score? s.catalog.tenantField definition = some score) :
    ∃ lead all,
      (∀ f ∈ lead, f ∈ definition.fields) ∧
      lead.map SortField.field =
        (spec.freeRanges s.catalog.tenantField).map WhereClause.field ∧
      List.Perm all (s.matching definition spec) ∧
      (∀ doc ∈ all, doc.Covers s.catalog.tenantField (lead ++ spec.order)) ∧
      all.Pairwise (fun d e =>
        Document.orderBy s.catalog.tenantField (lead ++ spec.order) d e ≠ .gt) ∧
      (spec.limit = none → s.answer definition spec = all) ∧
      ∀ limit, spec.limit = some limit → s.answer definition spec = all.take limit.toNat := by
  have hs := Shape.isOf_of_ofSpec hshape
  obtain ⟨l⟩ := Shape.nonempty_layout hscore
  obtain ⟨below, hrest⟩ := Shape.exists_scoreRest? hscore
  rw [l.drop_pinned] at hrest
  obtain ⟨lead, trailing, hfields, hlead⟩ := Shape.exists_lead_of_scoreRest? hrest
  rw [hs.leading_eq (Shape.orderIsOf_of_ofSpec hshape) hranges] at hlead
  have hperm := List.mergeSort_perm (s.matching definition spec)
    (Index.notAfter definition s.catalog.tenantField)
  have hsub : ∀ f ∈ lead, f ∈ definition.fields := by
    intro f hf
    rw [l.fields_eq, hfields, List.append_assoc]
    exact List.mem_cons_of_mem _ (List.mem_append_right _ (List.mem_append_left _ hf))
  refine ⟨lead, _, hsub, hlead, hperm, ?_, ?_, answer_of_no_limit, fun _ => answer_of_limit⟩
  · intro doc hdoc
    have hmatching := hperm.mem_iff.1 hdoc
    obtain ⟨-, -, ⟨key, hkey⟩, -, -⟩ := mem_matching_iff.1 hmatching
    exact List.forall_mem_append.2
      ⟨fun f hf => Document.covers_of_mapM hkey f (hsub f hf),
        covers_order hshape hscore hmatching⟩
  · refine (List.pairwise_mergeSort Index.notAfter_trans Index.notAfter_total _).imp_of_mem ?_
    intro d e hd he hle
    have hd := hperm.mem_iff.1 hd
    have he := hperm.mem_iff.1 he
    have hne := orderBy_ne_gt_of_notAfter hd he hle
    rw [orderBy_rest hs l hd he, hfields] at hne
    rw [Document.orderBy_append, ← orderBy_order hshape hd he, ← Document.orderBy_append]
    exact Document.orderBy_ne_gt_of_append hne

end

end Store

namespace Database

/--
In every reachable database the answer of a query that succeeds is sorted by
the order of the query, or, if there is a range condition on a field that the
order does not name and no equality pins, by this field and then by the order
of the query.  With a limit it is a first part of all documents that the query
asks for, in this order.
-/
theorem Reachable.query_is_sorted
    {db : Database}
    (h : Reachable db)
    {spec : QuerySpec}
    {docs : List Document}
    (hquery : db.store.query spec = .ok docs) :
    ∃ plan index lead all,
      db.store.plan spec = .ok plan ∧
      db.store.catalog.indexes.get? plan.index = some index ∧
      (∀ f ∈ lead, f ∈ index.definition.fields) ∧
      lead.map SortField.field =
        (spec.freeRanges db.store.catalog.tenantField).map WhereClause.field ∧
      List.Perm all (db.store.matching index.definition spec) ∧
      (∀ doc ∈ all, doc.Covers db.store.catalog.tenantField (lead ++ spec.order)) ∧
      all.Pairwise (fun d e =>
        Document.orderBy db.store.catalog.tenantField (lead ++ spec.order) d e ≠ .gt) ∧
      (spec.limit = none → docs = all) ∧
      ∀ limit, spec.limit = some limit → docs = all.take limit.toNat := by
  obtain ⟨shape, index, score, hplanned, hshape, hscore, hplan, rfl⟩ :=
    h.indexed.exists_plan_of_query hquery
  obtain ⟨lead, all, hsorted⟩ := Store.exists_sorted_answer hshape hplanned.ranges hscore
  exact ⟨_, index, lead, all, hplan, hplanned.listed, hsorted⟩

/-- An order of an item, with its total. -/
def orderOf
    (item : String)
    (total : Nat) :
    Json :=
  .object [("item", .string item), ("total", .ofNat total)]

/-- Three orders, and an index by their totals and then by their items. -/
def orderTotals : List Action :=
  let moment : Moment := ⟨0, fun _ => ⟨7⟩⟩
  [.createIndex ⟨"by_total", "orders", [⟨"total", .desc⟩, ⟨"item", .asc⟩]⟩,
   .create moment "acme" "ann" "orders/1" (orderOf "pear" 5) none,
   .create moment "acme" "ann" "orders/2" (orderOf "fig" 3) none,
   .create moment "acme" "ann" "orders/3" (orderOf "apple" 3) none]

/-- Two of the orders that cost something, by their items. -/
def costlyByItem : QuerySpec where
  collection := "orders"
  filters := [⟨"total", .gt, .ofNat 0⟩]
  order := [⟨"item", .asc⟩]
  limit := some 2
  tenant := "acme"

/--
The orders that cost something come by their totals, and by their items only where
these agree.  The answer has the first two of the three.
-/
theorem costlyByItem_is_sorted :
    Reachable (fresh.run orderTotals) ∧
    ∃ (docs : List Document) (lead : List SortField) (all : List Document),
      (fresh.run orderTotals).store.query costlyByItem = .ok docs ∧
      docs.map (fun doc => doc.path.text) = ["orders/1", "orders/3"] ∧
      ((fresh.run orderTotals).store.query { costlyByItem with limit := none }).toOption.map
        (fun docs => docs.map fun doc => doc.path.text) =
          some ["orders/1", "orders/3", "orders/2"] ∧
      docs = all.take 2 ∧
      lead.map SortField.field = ["total"] ∧
      all.Pairwise fun d e =>
        Document.orderBy "tenantId" (lead ++ costlyByItem.order) d e ≠ .gt := by
  have hreachable : Reachable (fresh.run orderTotals) := reachable_fresh.run orderTotals
  obtain ⟨docs, hquery, hpaths⟩ : ∃ docs,
      (fresh.run orderTotals).store.query costlyByItem = .ok docs ∧
      docs.map (fun doc => doc.path.text) = ["orders/1", "orders/3"] :=
    ⟨_, rfl, by decide +kernel⟩
  obtain ⟨plan, index, lead, all, -, -, -, hlead, -, -, hsorted, -, hdocs⟩ :=
    hreachable.query_is_sorted hquery
  exact ⟨hreachable, docs, lead, all, hquery, hpaths, by decide +kernel, hdocs 2 rfl, hlead,
    hsorted⟩

/-- By the order that was asked for alone, an answer need not be sorted. -/
theorem costlyByItem_is_not_by_item :
    Reachable (fresh.run orderTotals) ∧
    ∃ docs, (fresh.run orderTotals).store.query costlyByItem = .ok docs ∧
      ¬ docs.Pairwise fun d e => Document.orderBy "tenantId" costlyByItem.order d e ≠ .gt := by
  refine ⟨reachable_fresh.run orderTotals, _, rfl, ?_⟩
  decide +kernel

end Database
end DocumentStore
