import DocumentStore.Proofs.Index.Entries
import DocumentStore.Proofs.Query.Plan

/-!
# What a condition says of a document and of its key

A condition compares the value of a field with a given value.  A document
satisfies it if both values have a place in keys and compare as the sign says;
a condition on the tenant field is judged by the tenant of the document.  A
plan judges conditions by keys: it checks them at their positions, takes the
first equality on a pinned field for the value of the field, and sets a bound
for a range.  The key of a document says the same as the document.
-/

namespace DocumentStore

/-- Whether a value compares with another as the sign says; only values of one kind are in a range. -/
def FilterOp.holds
    (op : FilterOp)
    (a b : KeyValue) :
    Bool :=
  match op with
  | eq => a = b
  | lt => a.sameKind b && a.order b == .lt
  | le => a.sameKind b && a.order b != .gt
  | gt => a.sameKind b && a.order b == .gt
  | ge => a.sameKind b && a.order b != .lt

namespace FilterOp

variable {op : FilterOp} {a b : KeyValue}

theorem ne_lt_of_holds
    (hlower : op.isLowerBound = true)
    (h : op.holds a b = true) :
    a.order b ≠ .lt := by
  intro hlt
  cases op with
  | eq | lt | le =>
      cases hlower
  | gt | ge =>
      simp [holds, hlt] at h

theorem ne_gt_of_holds
    (hrange : op.isRange = true)
    (hlower : op.isLowerBound = false)
    (h : op.holds a b = true) :
    a.order b ≠ .gt := by
  intro hgt
  cases op with
  | eq =>
      cases hrange
  | lt | le =>
      simp [holds, hgt] at h
  | gt | ge =>
      cases hlower

end FilterOp

/-- The value by which a document is judged on a field, if it has a place in a key. -/
def Document.keyValue?
    (d : Document)
    (tenantField field : String) :
    Option KeyValue :=
  if field = tenantField then some (.string d.tenant)
  else (d.field? field).bind KeyValue.ofJson?

/-- Whether a document satisfies a condition; a value without a place in a key is matched by none. -/
def WhereClause.satisfiedBy
    (c : WhereClause)
    (tenantField : String)
    (d : Document) :
    Bool :=
  match d.keyValue? tenantField c.field, KeyValue.ofJson? c.value with
  | some actual, some wanted => c.op.holds actual wanted
  | _, _ => false

theorem WhereClause.exists_of_satisfiedBy
    {c : WhereClause}
    {tenantField : String}
    {d : Document}
    (h : c.satisfiedBy tenantField d = true) :
    ∃ actual wanted, d.keyValue? tenantField c.field = some actual ∧
      KeyValue.ofJson? c.value = some wanted ∧ c.op.holds actual wanted = true := by
  unfold satisfiedBy at h
  split at h
  · next actual wanted hactual hwanted =>
      exact ⟨actual, wanted, hactual, hwanted, h⟩
  · cases h

/-- The part of a key for a field is the value of the field with its direction. -/
theorem Index.partFor?_eq
    (tenantField : String)
    (doc : Document)
    (f : SortField) :
    partFor? tenantField doc f =
      (doc.keyValue? tenantField f.field).map fun v => ⟨v, f.direction⟩ := by
  unfold partFor? Document.keyValue?
  split
  · rfl
  · cases doc.field? f.field <;> rfl

/-- For a document of the tenant, conditions on the tenant field say nothing more. -/
theorem Shape.IsOf.satisfied_iff
    {spec : QuerySpec}
    {tenantField : String}
    {s : Shape}
    {doc : Document}
    (hs : s.IsOf spec tenantField)
    (htenant : doc.tenant = spec.tenant) :
    (∀ c ∈ spec.filters, c.satisfiedBy tenantField doc = true) ↔
      ∀ c ∈ s.clauses, c.satisfiedBy tenantField doc = true := by
  simp only [hs.clauses, List.mem_filter, decide_eq_true_eq]
  constructor
  · exact fun h c hc => h c hc.1
  · intro h c hc
    by_cases hfield : c.field = tenantField
    · obtain ⟨hop, hvalue⟩ := hs.tenant c hc hfield
      simp [WhereClause.satisfiedBy, Document.keyValue?, KeyValue.ofJson?, FilterOp.holds,
        hfield, hop, hvalue, htenant]
    · exact h c ⟨hc, hfield⟩

namespace Plan

/-! ### Bounds -/

/-- The bounds of a range condition have the direction of the field. -/
theorem direction_of_boundsOf
    {range : WhereClause}
    {direction : Direction}
    {bound : KeyPart}
    (h : bound ∈ (boundsOf range direction).1 ∨ bound ∈ (boundsOf range direction).2) :
    bound.direction = direction := by
  have hbound : bound ∈ (KeyValue.ofJson? range.value).map
      fun v => (⟨v, direction⟩ : KeyPart) := by
    unfold boundsOf at h
    dsimp only at h
    split at h <;> simpa using h
  obtain ⟨v, -, rfl⟩ := Option.map_eq_some_iff.1 hbound
  rfl

/-- A value in a range is within the bounds of the range, in either direction. -/
theorem within_boundsOf
    {range : WhereClause}
    {a wanted : KeyValue}
    (hrange : range.op.isRange = true)
    (hwanted : KeyValue.ofJson? range.value = some wanted)
    (hholds : range.op.holds a wanted = true)
    (direction : Direction) :
    (∀ bound ∈ (boundsOf range direction).1, bound.order ⟨a, direction⟩ ≠ .gt) ∧
      ∀ bound ∈ (boundsOf range direction).2, KeyPart.order ⟨a, direction⟩ bound ≠ .gt := by
  have hswap : wanted.order a = (a.order wanted).swap := by
    rw [KeyValue.order_eq_compare]
    exact Std.OrientedOrd.eq_swap
  unfold boundsOf
  rw [hwanted]
  cases hlower : range.op.isLowerBound with
  | true =>
      have hle : a.order wanted ≠ .lt := FilterOp.ne_lt_of_holds hlower hholds
      cases direction <;> simpa [KeyPart.order, hswap] using hle
  | false =>
      have hle : a.order wanted ≠ .gt := FilterOp.ne_gt_of_holds hrange hlower hholds
      cases direction <;> simpa [KeyPart.order, hswap] using hle

/-! ### The keys of documents -/

variable {spec : QuerySpec} {tenantField : String} {shape : Shape} {fields : List SortField}
  {doc : Document}

/-- A condition on a field of an index is checked by the key as it is judged by the document. -/
theorem admits_of_checkOf?
    {c : WhereClause}
    {check : KeyCheck}
    {key : Key}
    (hkey : fields.mapM (Index.partFor? tenantField doc) = some key)
    (hcheck : checkOf? fields c = some check) :
    check.admits key = c.satisfiedBy tenantField doc := by
  unfold checkOf? at hcheck
  split at hcheck
  · next position wanted hposition hwanted =>
      cases hcheck
      obtain ⟨hlt, hfield, -⟩ := List.findIdx?_eq_some_iff_getElem.1 hposition
      have hpart : key[position]? = (doc.keyValue? tenantField c.field).map
          fun v => ⟨v, fields[position].direction⟩ := by
        rw [getElem?_of_mapM_eq_some hkey, List.getElem?_eq_getElem hlt, Option.bind_some,
          Index.partFor?_eq, of_decide_eq_true hfield]
      unfold KeyCheck.admits WhereClause.satisfiedBy
      rw [hpart, hwanted]
      cases doc.keyValue? tenantField c.field with
      | none =>
          rfl
      | some actual =>
          cases c.op <;> rfl
  · cases hcheck

/-- A pinned field has a first equality. -/
theorem exists_pin
    {f : SortField}
    (hpinned : ∃ c ∈ shape.clauses, c.op.isEquality = true ∧ c.field = f.field) :
    ∃ c ∈ shape.clauses, c.op = .eq ∧ c.field = f.field ∧
      pinnedPart? shape.clauses f =
        (KeyValue.ofJson? c.value).map fun v => ⟨v, f.direction⟩ := by
  have hsome : (shape.clauses.find? fun c => c.op.isEquality && c.field = f.field).isSome =
      true := by
    obtain ⟨c, hc, hop, hfield⟩ := hpinned
    exact List.find?_isSome.2 ⟨c, hc, by simp [hop, hfield]⟩
  obtain ⟨c, hfind⟩ := Option.isSome_iff_exists.1 hsome
  have hc := List.find?_some hfind
  rw [Bool.and_eq_true, decide_eq_true_eq] at hc
  refine ⟨c, List.mem_of_find?_eq_some hfind, of_decide_eq_true hc.1, hc.2, ?_⟩
  rw [pinnedPart?, hfind]

/-- The value that pins a field is the value of every document that satisfies the conditions. -/
theorem pinnedPart?_of_satisfied
    {f : SortField}
    (hpinned : ∃ c ∈ shape.clauses, c.op.isEquality = true ∧ c.field = f.field)
    (hsatisfied : ∀ c ∈ shape.clauses, c.satisfiedBy tenantField doc = true) :
    pinnedPart? shape.clauses f = Index.partFor? tenantField doc f := by
  obtain ⟨c, hc, hop, hfield, hpin⟩ := exists_pin hpinned
  obtain ⟨actual, wanted, hactual, hwanted, hholds⟩ :=
    WhereClause.exists_of_satisfiedBy (hsatisfied c hc)
  have hequal : actual = wanted := by
    rw [hop] at hholds
    exact of_decide_eq_true hholds
  rw [hpin, hwanted, Index.partFor?_eq, ← hfield, hactual, hequal]

end Plan
end DocumentStore
