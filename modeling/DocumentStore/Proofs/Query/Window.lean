import DocumentStore.Proofs.Index.Scan
import DocumentStore.Proofs.Query.Condition

/-!
# The window of a plan

The keys in the window of a plan are those that begin with the tenant and the
first pinned values and go on within the bound; every key in the window is
checked.  For the key of a document, window and checks together say that the
document is of the tenant and satisfies every condition, also when conditions
contradict each other.  In a sound tree a scan finds all keys in the window.
-/

namespace DocumentStore

/-- A map that gives something for all gives as much as one that leaves out nothing. -/
theorem filterMap_of_mapM_eq_some
    {α β : Type}
    {f : α → Option β}
    {xs : List α}
    {ys : List β}
    (h : xs.mapM f = some ys) :
    xs.filterMap f = ys := by
  induction xs generalizing ys with
  | nil =>
      cases h
      rfl
  | cons x rest ih =>
      rw [List.mapM_cons] at h
      obtain ⟨y, hy, h⟩ := Option.bind_eq_some_iff.1 h
      obtain ⟨ys', hys, h⟩ := Option.bind_eq_some_iff.1 h
      cases h
      rw [List.filterMap_cons_some hy, ih hys]

theorem getElem?_filterMap_of_isSome
    {α β : Type}
    {f : α → Option β}
    {xs : List α}
    (h : ∀ x ∈ xs, (f x).isSome = true)
    (i : Nat) :
    (xs.filterMap f)[i]? = xs[i]?.bind f := by
  induction xs generalizing i with
  | nil =>
      rfl
  | cons x rest ih =>
      obtain ⟨hx, hrest⟩ := List.forall_mem_cons.1 h
      obtain ⟨y, hy⟩ := Option.isSome_iff_exists.1 hx
      rw [List.filterMap_cons_some hy]
      cases i with
      | zero =>
          exact hy.symm
      | succ i =>
          exact ih hrest i

namespace Tree

variable {start tail : Key} {lower upper : Option KeyPart}

theorem prefix_of_inWindow
    {key : Key}
    (h : inWindow start lower upper key = true) :
    start <+: key := by
  unfold inWindow within at h
  rw [Bool.and_eq_true, Bool.and_eq_true, List.isPrefixOf_iff_prefix] at h
  exact h.1.1

/-- A key that begins as a window says and goes on within its bounds is in the window. -/
theorem inWindow_append
    (hlower : ∀ bound ∈ lower, ∃ part ∈ tail.head?, bound.order part ≠ .gt)
    (hupper : ∀ bound ∈ upper, ∀ part ∈ tail.head?, part.order bound ≠ .gt) :
    inWindow start lower upper (start ++ tail) = true := by
  unfold inWindow within
  rw [Key.getElem?_append_length, Bool.and_eq_true, Bool.and_eq_true,
    List.isPrefixOf_iff_prefix]
  refine ⟨⟨List.prefix_append _ _, ?_⟩, ?_⟩
  · cases upper with
    | none =>
        rfl
    | some bound =>
        cases hhead : tail.head? with
        | none =>
            rfl
        | some part =>
            exact bne_iff_ne.2 (hupper bound rfl part hhead)
  · cases lower with
    | none =>
        rfl
    | some bound =>
        obtain ⟨part, hhead, hle⟩ := hlower bound rfl
        rw [hhead]
        exact bne_iff_ne.2 hle

end Tree

/-- Whether a key is among those to scan. -/
def KeyWindow.includes
    (w : KeyWindow)
    (key : Key) :
    Bool :=
  Tree.inWindow w.start w.lower w.upper key

/-- Whether a key is among those to scan and meets the conditions of a plan. -/
def Plan.accepts
    (p : Plan)
    (key : Key) :
    Bool :=
  p.window.includes key && p.admits key

namespace Plan

variable {spec : QuerySpec} {tenantField : String} {shape : Shape} {doc : Document}

/-! ### The window of a plan -/

section

variable {definition : IndexDefinition} (hs : shape.IsOf spec tenantField)
  (l : Shape.Layout shape tenantField definition.fields)

include l

/-- The key of a document by the parts that the fields play. -/
theorem exists_parts
    {key : Key}
    (hkey : Index.keyFor? definition tenantField doc = some key) :
    ∃ pinned tail,
      l.block.mapM (Index.partFor? tenantField doc) = some pinned ∧
        l.rest.mapM (Index.partFor? tenantField doc) = some tail ∧
        key = ⟨.string doc.tenant, l.first.direction⟩ :: (pinned ++ tail) := by
  unfold Index.keyFor? at hkey
  rw [l.fields_eq, List.mapM_cons] at hkey
  obtain ⟨part, hpart, hkey⟩ := Option.bind_eq_some_iff.1 hkey
  obtain ⟨parts, hparts, hkey⟩ := Option.bind_eq_some_iff.1 hkey
  rw [List.mapM_append] at hparts
  obtain ⟨pinned, hpinned, hparts⟩ := Option.bind_eq_some_iff.1 hparts
  obtain ⟨tail, htail, hparts⟩ := Option.bind_eq_some_iff.1 hparts
  rw [Index.partFor?, if_pos l.first_eq] at hpart
  cases hpart
  cases hparts
  cases hkey
  exact ⟨pinned, tail, hpinned, htail, rfl⟩

/-- The key of a document in the window of the plan tells the tenant. -/
theorem tenant_of_includes
    {key : Key}
    {score : Nat}
    (hkey : Index.keyFor? definition tenantField doc = some key)
    (h : (onIndex spec shape definition score).window.includes key = true) :
    doc.tenant = spec.tenant := by
  obtain ⟨pinned, tail, -, -, rfl⟩ := exists_parts l hkey
  have hprefix := Tree.prefix_of_inWindow h
  rw [start_onIndex l] at hprefix
  have hpart := (List.cons_prefix_cons.1 hprefix).1
  exact (KeyValue.string.inj (congrArg KeyPart.value hpart)).symm

include hs

/-- A document that satisfies the conditions goes on within the bounds. -/
theorem within_boundsOn
    {tail : Key}
    (htail : l.rest.mapM (Index.partFor? tenantField doc) = some tail)
    (hsatisfied : ∀ c ∈ shape.clauses, c.satisfiedBy tenantField doc = true) :
    (∀ bound ∈ (boundsOn shape l.rest).1, ∃ part ∈ tail.head?, bound.order part ≠ .gt) ∧
      ∀ bound ∈ (boundsOn shape l.rest).2, ∀ part ∈ tail.head?, part.order bound ≠ .gt := by
  unfold boundsOn
  split
  · next range f hrange hhead =>
      obtain ⟨f', hf', hfield⟩ := l.ranged range hrange
      rw [hhead] at hf'
      cases hf'
      obtain ⟨hmem, hop⟩ := hs.range_mem hrange
      obtain ⟨actual, wanted, hactual, hwanted, hholds⟩ :=
        WhereClause.exists_of_satisfiedBy (hsatisfied range hmem)
      have hpart : tail.head? = some ⟨actual, f.direction⟩ := by
        rw [List.head?_eq_getElem?, getElem?_of_mapM_eq_some htail, ← List.head?_eq_getElem?,
          hhead, Option.bind_some, Index.partFor?_eq, hfield, hactual]
        rfl
      obtain ⟨hlower, hupper⟩ := within_boundsOf hop hwanted hholds f.direction
      rw [hpart]
      refine ⟨fun bound hbound => ⟨_, rfl, hlower bound hbound⟩, fun bound hbound part hmem => ?_⟩
      cases hmem
      exact hupper bound hbound
  · refine ⟨?_, ?_⟩ <;> intro bound hbound <;> cases hbound

/-- The key of a document that a query asks for is in the window of the plan. -/
theorem includes_of_satisfied
    {key : Key}
    (hkey : Index.keyFor? definition tenantField doc = some key)
    (htenant : doc.tenant = spec.tenant)
    (hsatisfied : ∀ c ∈ shape.clauses, c.satisfiedBy tenantField doc = true)
    (score : Nat) :
    (onIndex spec shape definition score).window.includes key = true := by
  obtain ⟨pinned, tail, hpinned, htail, rfl⟩ := exists_parts l hkey
  have hstart : (onIndex spec shape definition score).window.start =
      ⟨.string doc.tenant, l.first.direction⟩ :: pinned := by
    rw [start_onIndex l, htenant, ← filterMap_of_mapM_eq_some hpinned]
    refine congrArg _ (List.filterMap_congr fun f hf => ?_)
    exact pinnedPart?_of_satisfied (hs.mem_equality_iff.1 (l.mem_equality hs hf)) hsatisfied
  obtain ⟨hlower, hupper⟩ := within_boundsOn hs l htail hsatisfied
  unfold KeyWindow.includes
  rw [lower_onIndex l, upper_onIndex l, hstart, ← List.cons_append]
  exact Tree.inWindow_append hlower hupper

end

/-! ### Scans and checks -/

section

variable {definition : IndexDefinition} (hs : shape.IsOf spec tenantField)
  (l : Shape.Layout shape tenantField definition.fields)
  (hkeyed : ∀ c ∈ shape.clauses, (KeyValue.ofJson? c.value).isSome = true) (score : Nat)

include hs l hkeyed

theorem isSome_pinnedPart?
    {f : SortField}
    (hf : f ∈ l.block) :
    (pinnedPart? shape.clauses f).isSome = true := by
  obtain ⟨c, hc, -, -, hpin⟩ := exists_pin (hs.mem_equality_iff.1 (l.mem_equality hs hf))
  rw [hpin, Option.isSome_map]
  exact hkeyed c hc

/-- The keys to scan begin in the directions of the index. -/
theorem follows_start :
    Key.Follows definition.directionAt (onIndex spec shape definition score).window.start := by
  rw [start_onIndex l]
  refine Key.follows_cons.2 ⟨?_, ?_⟩
  · rw [IndexDefinition.directionAt, l.getElem?_fields]
    rfl
  · intro position part hpart
    rw [getElem?_filterMap_of_isSome fun f hf => isSome_pinnedPart? hs l hkeyed hf] at hpart
    obtain ⟨f, hf, hpart⟩ := Option.bind_eq_some_iff.1 hpart
    obtain ⟨c, -, -, -, hpin⟩ :=
      exists_pin (hs.mem_equality_iff.1 (l.mem_equality hs (List.mem_of_getElem? hf)))
    rw [hpin] at hpart
    obtain ⟨v, -, rfl⟩ := Option.map_eq_some_iff.1 hpart
    dsimp only
    rw [IndexDefinition.directionAt, l.getElem?_fields, List.getElem?_cons_succ,
      List.getElem?_append_left (List.getElem?_eq_some_iff.1 hf).1, hf]
    rfl

/-- The bounds of the scan are in the direction of the part they bound. -/
theorem direction_of_boundsOn
    {bound : KeyPart}
    (h : bound ∈ (boundsOn shape l.rest).1 ∨ bound ∈ (boundsOn shape l.rest).2) :
    bound.direction =
      definition.directionAt (onIndex spec shape definition score).window.start.length := by
  unfold boundsOn at h
  split at h
  · next range f hrange hhead =>
      have hlength : (l.block.filterMap (pinnedPart? shape.clauses)).length = l.block.length :=
        List.filterMap_length_eq_length.2 fun f hf => isSome_pinnedPart? hs l hkeyed hf
      rw [direction_of_boundsOf h, start_onIndex l, List.length_cons, hlength,
        IndexDefinition.directionAt, l.getElem?_fields, List.getElem?_cons_succ,
        List.getElem?_append_right (Nat.le_refl _), Nat.sub_self, ← List.head?_eq_getElem?, hhead]
      rfl
  · rcases h with h | h <;> cases h

/-- A scan of a sound tree by the plan yields the entries whose keys are among those to scan. -/
theorem scan_onIndex
    {t : Tree}
    (h : t.Sound definition.directionAt) :
    let window := (onIndex spec shape definition score).window
    t.scan window.start window.lower window.upper =
      t.toList.filter fun e => window.includes e.1 := by
  refine h.scan_eq_filter (follows_start hs l hkeyed score) ?_ ?_
  · intro bound hbound
    rw [lower_onIndex l] at hbound
    exact direction_of_boundsOn hs l hkeyed score (.inl hbound)
  · intro bound hbound
    rw [upper_onIndex l] at hbound
    exact direction_of_boundsOn hs l hkeyed score (.inr hbound)

variable (hranges : shape.ranges.length ≤ 1)

include hranges

/-- A key meets the conditions of the plan if its document satisfies those of the query. -/
theorem admits_onIndex_iff
    {key : Key}
    (hkey : Index.keyFor? definition tenantField doc = some key) :
    (onIndex spec shape definition score).admits key = true ↔
      ∀ c ∈ shape.clauses, c.satisfiedBy tenantField doc = true := by
  change (((shape.clauses.filterMap (checkOf? definition.fields)).all
    fun check => check.admits key) = true) ↔ _
  rw [List.all_eq_true, List.forall_mem_filterMap]
  refine forall₂_congr fun c hc => ?_
  have hsome := hkeyed c hc
  rw [← isSome_checkOf? (l.exists_field hs hranges hc)] at hsome
  obtain ⟨check, hcheck⟩ := Option.isSome_iff_exists.1 hsome
  rw [← admits_of_checkOf? hkey hcheck]
  constructor
  · exact fun h => h check hcheck
  · intro h check' hcheck'
    rw [hcheck] at hcheck'
    cases hcheck'
    exact h

/-- The plan accepts the key of a document if the query asks for the document. -/
theorem accepts_iff
    {key : Key}
    (hkey : Index.keyFor? definition tenantField doc = some key) :
    (onIndex spec shape definition score).accepts key = true ↔
      doc.tenant = spec.tenant ∧ ∀ c ∈ spec.filters, c.satisfiedBy tenantField doc = true := by
  unfold accepts
  rw [Bool.and_eq_true, admits_onIndex_iff hs l hkeyed score hranges hkey]
  constructor
  · rintro ⟨hwindow, hsatisfied⟩
    have htenant := tenant_of_includes l hkey hwindow
    exact ⟨htenant, (hs.satisfied_iff htenant).2 hsatisfied⟩
  · rintro ⟨htenant, hsatisfied⟩
    have hclauses := (hs.satisfied_iff htenant).1 hsatisfied
    exact ⟨includes_of_satisfied hs l hkey htenant hclauses score, hclauses⟩

end

end Plan
end DocumentStore
