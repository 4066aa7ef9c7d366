import DocumentStore.Query.Plan
import Mathlib.Data.List.Perm.Subperm

/-!
# What a plan says of its query

A query is planned in two steps: its shape is read off, and an index is chosen
that serves the shape.  The fields of such an index are laid out as the tenant
field, a block of exactly the fields pinned by equality, and the field of the
range condition if there is one.  So every condition of the query is about a
field of the index, and only a value without a place in a key can keep it from
being checked.
-/

namespace DocumentStore

universe u

/-- Nothing occurs twice after the repetitions are taken out. -/
theorem nodup_eraseDups
    {α : Type u}
    [BEq α]
    [LawfulBEq α]
    (xs : List α) :
    xs.eraseDups.Nodup := by
  induction hn : xs.length using Nat.strongRecOn generalizing xs with
  | ind n ih =>
      cases xs with
      | nil =>
          exact List.nodup_nil
      | cons x rest =>
          rw [List.eraseDups_cons]
          refine List.nodup_cons.2 ⟨?_, ih _ ?_ _ rfl⟩
          · simp
          · rw [← hn]
            exact Nat.lt_succ_of_le (List.length_filter_le _ _)

namespace Shape

/-- A query is accepted with a shape: what was checked, and what the shape keeps of the query. -/
structure Accepted
    (spec : QuerySpec)
    (tenantField : String)
    (s : Shape) :
    Prop where
  collection : spec.collection ≠ "" ∧ '/' ∉ spec.collection.toList
  named : spec.tenant ≠ ""
  own : ¬ spec.filters.any (foreignTenant tenantField spec.tenant) = true
  clauses : s.clauses = spec.filters.filter fun c => c.field ≠ tenantField
  equality : s.equality = ((s.clauses.filter fun c => c.op.isEquality).map WhereClause.field).eraseDups
  ranges : s.ranges = s.clauses.filter fun c => c.op.isRange && c.field ∉ s.equality
  order : s.order = spec.order.filter fun o => o.field ≠ tenantField && o.field ∉ s.equality
  unrepeated : repeated? [] s.order = none
  rangeFirst : ∀ range ∈ s.range?, ∀ o ∈ s.order.drop 1, o.field ≠ range.field

/-- A query with a shape is accepted with it. -/
theorem accepted_of_ofSpec
    {spec : QuerySpec}
    {tenantField : String}
    {s : Shape}
    (h : ofSpec spec tenantField = .ok s) :
    s.Accepted spec tenantField := by
  unfold ofSpec at h
  split at h
  · cases h
  next hcollection =>
  split at h
  · cases h
  next hnamed =>
  split at h
  · cases h
  next hown =>
  dsimp only at h
  split at h
  · cases h
  next hunrepeated =>
  split at h
  · next range hrange =>
      split at h
      · cases h
      · next hlater =>
          cases h
          refine ⟨not_or.1 hcollection, hnamed, hown, rfl, rfl, rfl, rfl, hunrepeated, ?_⟩
          intro range' hrange' o ho hfield
          obtain rfl := Option.some.inj (hrange.symm.trans hrange')
          exact hlater (List.any_eq_true.2 ⟨o, ho, decide_eq_true hfield⟩)
  · next hnone =>
      cases h
      refine ⟨not_or.1 hcollection, hnamed, hown, rfl, rfl, rfl, rfl, hunrepeated, ?_⟩
      intro range hrange
      cases hnone.symm.trans hrange

/-- What the shape of a query keeps of its conditions. -/
structure IsOf
    (spec : QuerySpec)
    (tenantField : String)
    (s : Shape) :
    Prop where
  tenant : ∀ c ∈ spec.filters, c.field = tenantField → c.op = .eq ∧ c.value = .string spec.tenant
  clauses : s.clauses = spec.filters.filter fun c => c.field ≠ tenantField
  equality : s.equality = ((s.clauses.filter fun c => c.op.isEquality).map WhereClause.field).eraseDups
  ranges : s.ranges = s.clauses.filter fun c => c.op.isRange && c.field ∉ s.equality

variable {spec : QuerySpec} {tenantField : String} {s : Shape}

theorem isOf_of_ofSpec
    (h : ofSpec spec tenantField = .ok s) :
    s.IsOf spec tenantField := by
  have haccepted := accepted_of_ofSpec h
  refine ⟨?_, haccepted.clauses, haccepted.equality, haccepted.ranges⟩
  intro c hc hfield
  simpa [foreignTenant, FilterOp.isEquality, hfield] using
    fun hbad => haccepted.own (List.any_eq_true.2 ⟨c, hc, hbad⟩)

namespace IsOf

theorem mem_equality_iff
    (h : s.IsOf spec tenantField)
    {field : String} :
    field ∈ s.equality ↔ ∃ c ∈ s.clauses, c.op.isEquality = true ∧ c.field = field := by
  rw [h.equality]
  simp [and_assoc]

theorem nodup_equality
    (h : s.IsOf spec tenantField) :
    s.equality.Nodup := by
  rw [h.equality]
  exact nodup_eraseDups _

theorem range_mem
    (h : s.IsOf spec tenantField)
    {range : WhereClause}
    (hrange : s.range? = some range) :
    range ∈ s.clauses ∧ range.op.isRange = true := by
  have hmem : range ∈ s.ranges := List.mem_of_mem_head? hrange
  rw [h.ranges, List.mem_filter, Bool.and_eq_true] at hmem
  exact ⟨hmem.1, hmem.2.1⟩

/-- A condition is on a pinned field, or it is the range condition. -/
theorem pinned_or_range
    (h : s.IsOf spec tenantField)
    (hranges : s.ranges.length ≤ 1)
    {c : WhereClause}
    (hc : c ∈ s.clauses) :
    c.field ∈ s.equality ∨ s.range? = some c := by
  by_cases hpinned : c.field ∈ s.equality
  · exact .inl hpinned
  · have hrange : c.op.isRange = true := by
      unfold FilterOp.isRange
      cases hop : c.op.isEquality with
      | false =>
          rfl
      | true =>
          exact absurd (h.mem_equality_iff.2 ⟨c, hc, hop, rfl⟩) hpinned
    have hmem : c ∈ s.ranges := by
      rw [h.ranges, List.mem_filter]
      exact ⟨hc, by simp [hrange, hpinned]⟩
    obtain ⟨range, hsingle⟩ := List.length_eq_one_iff.1
      (Nat.le_antisymm hranges (List.length_pos_of_mem hmem))
    rw [hsingle, List.mem_singleton] at hmem
    refine .inr ?_
    rw [range?, hsingle, hmem]
    rfl

end IsOf

/-! ### The fields of an index that serves a shape -/

/-- The parts that the fields of an index play for a shape it serves. -/
structure Layout
    (s : Shape)
    (tenantField : String)
    (fields : List SortField) where
  first : SortField
  block : List SortField
  rest : List SortField
  fields_eq : fields = first :: (block ++ rest)
  first_eq : first.field = tenantField
  length_block : block.length = s.equality.length
  pinned : ∀ e ∈ s.equality, e ∈ block.map SortField.field
  ranged : ∀ range ∈ s.range?, ∃ f ∈ rest.head?, f.field = range.field

/-- The fields that follow the pinned ones begin with the range field. -/
theorem head_of_scoreRest?
    {fields : List SortField}
    {score : Nat}
    (h : s.scoreRest? fields = some score) :
    ∀ range ∈ s.range?, ∃ f ∈ fields.head?, f.field = range.field := by
  intro range hrange
  unfold scoreRest? at h
  rw [hrange] at h
  cases fields with
  | nil =>
      cases h
  | cons f rest =>
      dsimp only at h
      split at h
      · cases h
      · next hfield =>
          exact ⟨f, rfl, Decidable.not_not.1 hfield⟩

/--
An index that has a score begins with the tenant field, goes on with a block in
which every pinned field is found, and has a score for the fields after it.
-/
theorem exists_of_score?_eq_some
    {definition : IndexDefinition}
    {score : Nat}
    (h : s.score? tenantField definition = some score) :
    ∃ first rest below,
      definition.fields = first :: rest ∧ first.field = tenantField ∧
      s.equality.length ≤ rest.length ∧
      (∀ e ∈ s.equality, ∃ f ∈ rest.take s.equality.length, f.field = e) ∧
      s.scoreRest? (rest.drop s.equality.length) = some below := by
  unfold score? at h
  split at h
  · cases h
  next first rest hfields =>
  dsimp only at h
  split at h
  · cases h
  next hfirst =>
  split at h
  · cases h
  next hlength =>
  split at h
  · next hpinned =>
      obtain ⟨below, hrest, -⟩ := Option.map_eq_some_iff.1 h
      refine ⟨first, rest, below, hfields, Decidable.not_not.1 hfirst, Nat.not_lt.1 hlength, ?_,
        hrest⟩
      intro e he
      obtain ⟨f, hf, hfield⟩ := List.any_eq_true.1 (List.all_eq_true.1 hpinned e he)
      exact ⟨f, hf, of_decide_eq_true hfield⟩
  · cases h

/-- The fields of an index that has a score are laid out for the shape. -/
theorem nonempty_layout
    {definition : IndexDefinition}
    {score : Nat}
    (h : s.score? tenantField definition = some score) :
    Nonempty (Layout s tenantField definition.fields) := by
  obtain ⟨first, rest, below, hfields, hfirst, hlength, hpinned, hrest⟩ :=
    exists_of_score?_eq_some h
  exact ⟨
    { first
      block := rest.take s.equality.length
      rest := rest.drop s.equality.length
      fields_eq := by rw [hfields, List.take_append_drop]
      first_eq := hfirst
      length_block := List.length_take_of_le hlength
      pinned := fun e he => List.mem_map.2 (hpinned e he)
      ranged := head_of_scoreRest? hrest }⟩

namespace Layout

variable {fields : List SortField}

theorem getElem?_fields
    (l : Layout s tenantField fields)
    (i : Nat) :
    fields[i]? = (l.first :: (l.block ++ l.rest))[i]? :=
  congrArg (fun fs => fs[i]?) l.fields_eq

theorem drop_pinned (l : Layout s tenantField fields) :
    (fields.drop 1).drop s.equality.length = l.rest := by
  obtain ⟨first, block, rest, rfl, -, hlength, -, -⟩ := l
  rw [← hlength]
  exact List.drop_left

/-- The block has exactly the pinned fields. -/
theorem perm_block
    (l : Layout s tenantField fields)
    (hs : s.IsOf spec tenantField) :
    (l.block.map SortField.field).Perm s.equality := by
  have hsub : s.equality.Subperm (l.block.map SortField.field) :=
    List.subperm_of_subset hs.nodup_equality l.pinned
  refine (hsub.perm_of_length_le ?_).symm
  rw [List.length_map]
  exact Nat.le_of_eq l.length_block

theorem mem_equality
    (l : Layout s tenantField fields)
    (hs : s.IsOf spec tenantField)
    {f : SortField}
    (hf : f ∈ l.block) :
    f.field ∈ s.equality :=
  (l.perm_block hs).mem_iff.1 (List.mem_map_of_mem hf)

theorem exists_field
    (l : Layout s tenantField fields)
    (hs : s.IsOf spec tenantField)
    (hranges : s.ranges.length ≤ 1)
    {c : WhereClause}
    (hc : c ∈ s.clauses) :
    ∃ f ∈ fields, f.field = c.field := by
  rw [l.fields_eq]
  rcases hs.pinned_or_range hranges hc with hpinned | hrange
  · obtain ⟨f, hf, hfield⟩ := List.mem_map.1 (l.pinned _ hpinned)
    exact ⟨f, List.mem_cons_of_mem _ (List.mem_append_left _ hf), hfield⟩
  · obtain ⟨f, hf, hfield⟩ := l.ranged c hrange
    exact ⟨f, List.mem_cons_of_mem _ (List.mem_append_right _ (List.mem_of_mem_head? hf)), hfield⟩

end Layout
end Shape

namespace Plan

variable {spec : QuerySpec} {tenantField : String} {shape : Shape}

theorem mem_of_better
    {best : Option (Nat × IndexDefinition)}
    {candidate found : Nat × IndexDefinition}
    (h : better best candidate = some found) :
    best = some found ∨ candidate = found := by
  unfold better at h
  split at h
  · exact .inr (Option.some.inj h)
  · split at h
    · exact .inr (Option.some.inj h)
    · exact .inl h

theorem mem_of_foldl_better
    {served : List (Nat × IndexDefinition)}
    {best : Option (Nat × IndexDefinition)}
    {found : Nat × IndexDefinition}
    (h : served.foldl better best = some found) :
    best = some found ∨ found ∈ served := by
  induction served generalizing best with
  | nil =>
      exact .inl h
  | cons candidate rest ih =>
      rcases ih h with hbetter | hmem
      · rcases mem_of_better hbetter with hbest | rfl
        · exact .inl hbest
        · exact .inr List.mem_cons_self
      · exact .inr (List.mem_cons_of_mem _ hmem)

/-- A query is planned with its shape and the best of the indexes that serve the shape. -/
theorem ofSpec_eq_ok_iff
    {definitions : List IndexDefinition}
    {plan : Plan} :
    ofSpec spec definitions tenantField = .ok plan ↔
      ∃ shape score definition,
        Shape.ofSpec spec tenantField = .ok shape ∧
          shape.ranges.length ≤ 1 ∧
          (candidates shape spec.collection tenantField definitions).foldl better none =
            some (score, definition) ∧
          plan = onIndex spec shape definition score := by
  unfold ofSpec
  constructor
  · intro h
    split at h
    · cases h
    · next shape hshape =>
        dsimp only at h
        split at h
        · cases h
        · next hranges =>
            split at h
            · cases h
            · next score definition hbest =>
                exact ⟨shape, score, definition, hshape, Nat.not_lt.1 hranges, hbest,
                  (Except.ok.inj h).symm⟩
  · rintro ⟨shape, score, definition, hshape, hranges, hbest, rfl⟩
    rw [hshape]
    dsimp only
    rw [if_neg (Nat.not_lt.2 hranges), hbest]

/-- The indexes that serve a shape are those of the collection that have a score. -/
theorem mem_candidates_iff
    {collection : String}
    {definitions : List IndexDefinition}
    {score : Nat}
    {definition : IndexDefinition} :
    (score, definition) ∈ candidates shape collection tenantField definitions ↔
      definition ∈ definitions ∧ definition.collection = collection ∧
        shape.score? tenantField definition = some score := by
  unfold candidates
  rw [List.mem_filterMap]
  constructor
  · rintro ⟨d, hd, hscored⟩
    obtain ⟨hd, hcollection⟩ := List.mem_filter.1 hd
    obtain ⟨points, hscore, heq⟩ := Option.map_eq_some_iff.1 hscored
    cases heq
    exact ⟨hd, of_decide_eq_true hcollection, hscore⟩
  · rintro ⟨hd, hcollection, hscore⟩
    exact ⟨definition, List.mem_filter.2 ⟨hd, decide_eq_true hcollection⟩, by rw [hscore]; rfl⟩

/-- The best of the indexes that serve a shape is an index of the collection that has a score. -/
theorem mem_of_best
    {collection : String}
    {definitions : List IndexDefinition}
    {score : Nat}
    {definition : IndexDefinition}
    (h : (candidates shape collection tenantField definitions).foldl better none =
      some (score, definition)) :
    definition ∈ definitions ∧ definition.collection = collection ∧
      shape.score? tenantField definition = some score :=
  mem_candidates_iff.1 ((mem_of_foldl_better h).resolve_left (Option.some_ne_none _).symm)

/-- A plan is made of the shape of its query and of an index of the collection that serves it. -/
theorem eq_onIndex_of_ofSpec
    {definitions : List IndexDefinition}
    {plan : Plan}
    (h : ofSpec spec definitions tenantField = .ok plan) :
    ∃ shape definition score,
      Shape.ofSpec spec tenantField = .ok shape ∧
        shape.ranges.length ≤ 1 ∧
        definition ∈ definitions ∧
        definition.collection = spec.collection ∧
        shape.score? tenantField definition = some score ∧
        plan = onIndex spec shape definition score := by
  obtain ⟨shape, score, definition, hshape, hranges, hbest, heq⟩ := ofSpec_eq_ok_iff.1 h
  obtain ⟨hdefinition, hcollection, hscore⟩ := mem_of_best hbest
  exact ⟨shape, definition, score, hshape, hranges, hdefinition, hcollection, hscore, heq⟩

/-! ### The window and the conditions of a plan -/

/-- The bounds that the range condition of a shape sets on the first of some fields. -/
def boundsOn
    (shape : Shape)
    (fields : List SortField) :
    Option KeyPart × Option KeyPart :=
  match shape.range?, fields.head? with
  | some range, some f => boundsOf range f.direction
  | _, _ => (none, none)

section OnIndex

variable {definition : IndexDefinition} (l : Shape.Layout shape tenantField definition.fields)
  (score : Nat)

include l

theorem start_onIndex :
    (onIndex spec shape definition score).window.start =
      ⟨.string spec.tenant, l.first.direction⟩ ::
        l.block.filterMap (pinnedPart? shape.clauses) := by
  simp [onIndex, l.fields_eq, ← l.length_block]

theorem lower_onIndex :
    (onIndex spec shape definition score).window.lower = (boundsOn shape l.rest).1 :=
  congrArg (fun rest => (boundsOn shape rest).1) l.drop_pinned

theorem upper_onIndex :
    (onIndex spec shape definition score).window.upper = (boundsOn shape l.rest).2 :=
  congrArg (fun rest => (boundsOn shape rest).2) l.drop_pinned

end OnIndex

/-- A condition on a field of the index is checked unless its value has no place in a key. -/
theorem isSome_checkOf?
    {fields : List SortField}
    {c : WhereClause}
    (hfield : ∃ f ∈ fields, f.field = c.field) :
    (checkOf? fields c).isSome = (KeyValue.ofJson? c.value).isSome := by
  obtain ⟨f, hf, hname⟩ := hfield
  have hfound : (fields.findIdx? fun f => f.field = c.field).isSome = true := by
    rw [List.findIdx?_isSome, List.any_eq_true]
    exact ⟨f, hf, decide_eq_true hname⟩
  obtain ⟨position, hposition⟩ := Option.isSome_iff_exists.1 hfound
  unfold checkOf?
  rw [hposition]
  cases KeyValue.ofJson? c.value <;> rfl

/-- The plan is unsatisfiable if and only if some condition has a value without a place in a key. -/
theorem unsatisfiable_onIndex
    {definition : IndexDefinition}
    (hs : shape.IsOf spec tenantField)
    (l : Shape.Layout shape tenantField definition.fields)
    (hranges : shape.ranges.length ≤ 1)
    (score : Nat) :
    (onIndex spec shape definition score).unsatisfiable = true ↔
      ∃ c ∈ shape.clauses, KeyValue.ofJson? c.value = none := by
  change (shape.clauses.any fun c => (checkOf? definition.fields c).isNone) = true ↔ _
  rw [List.any_eq_true]
  refine exists_congr fun c => and_congr_right fun hc => ?_
  rw [← Option.not_isSome, isSome_checkOf? (l.exists_field hs hranges hc), Option.not_isSome,
    Option.isNone_iff_eq_none]

end Plan
end DocumentStore
