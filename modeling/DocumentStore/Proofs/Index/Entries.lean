import DocumentStore.Proofs.Index.Tree
import DocumentStore.Proofs.Store.Placement

/-!
# The entries of an index

An index holds the entries of the documents of its collection that have a key,
and nothing else.  A key begins with the tenant of the document, so an entry
belongs to one document only.  That is why an index that follows a change can
take out the entry of the earlier form: no other document has it.
-/

namespace DocumentStore

/-- The direction of the part at a position of the keys. -/
def IndexDefinition.directionAt
    (d : IndexDefinition)
    (position : Nat) :
    Direction :=
  (d.fields[position]?.map SortField.direction).getD .asc

/-- The first field of an index is the tenant field. -/
def IndexDefinition.TenantFirst
    (d : IndexDefinition)
    (tenantField : String) :
    Prop :=
  ∃ direction rest, d.fields = ⟨tenantField, direction⟩ :: rest

/-- The parts of an option-valued map of a list, position by position. -/
theorem getElem?_of_mapM_eq_some
    {α β : Type}
    {f : α → Option β}
    {xs : List α}
    {ys : List β}
    (h : xs.mapM f = some ys)
    (i : Nat) :
    ys[i]? = xs[i]?.bind f := by
  induction xs generalizing ys i with
  | nil =>
      cases h
      rfl
  | cons x rest ih =>
      rw [List.mapM_cons] at h
      obtain ⟨y, hy, h⟩ := Option.bind_eq_some_iff.1 h
      obtain ⟨ys', hys, h⟩ := Option.bind_eq_some_iff.1 h
      cases h
      cases i with
      | zero =>
          exact hy.symm
      | succ i =>
          exact ih hys i

namespace IndexDefinition

/-- A definition is normal when the tenant field is its first; else that is put in front. -/
theorem cases_of_normalized
    {d d' : IndexDefinition}
    {tenantField : String}
    (h : d.normalized tenantField = .ok d') :
    d' = d ∧ d.fieldNames.idxOf? tenantField = some 0 ∨
      d' = { d with fields := ⟨tenantField, .asc⟩ :: d.fields } := by
  unfold normalized at h
  split at h
  · cases h
  split at h
  · cases h
  split at h
  · cases h
  split at h
  · next hfirst =>
      cases h
      exact .inl ⟨rfl, hfirst⟩
  · cases h
  · cases h
    exact .inr rfl

theorem name_of_normalized
    {d d' : IndexDefinition}
    {tenantField : String}
    (h : d.normalized tenantField = .ok d') :
    d'.name = d.name := by
  rcases cases_of_normalized h with ⟨rfl, -⟩ | rfl <;> rfl

/-- A normal definition has the tenant field first. -/
theorem tenantFirst_of_normalized
    {d d' : IndexDefinition}
    {tenantField : String}
    (h : d.normalized tenantField = .ok d') :
    d'.TenantFirst tenantField := by
  rcases cases_of_normalized h with ⟨rfl, hfirst⟩ | rfl
  · obtain ⟨name, collection, fields⟩ := d'
    unfold fieldNames at hfirst
    cases fields with
    | nil =>
        cases hfirst
    | cons f rest =>
        obtain ⟨field, direction⟩ := f
        simp only [List.map_cons, List.idxOf?_cons] at hfirst
        split at hfirst
        · next heq =>
            rw [beq_iff_eq] at heq
            exact ⟨direction, rest, by rw [heq]⟩
        · obtain ⟨i, -, hi⟩ := Option.map_eq_some_iff.1 hfirst
          cases hi
  · exact ⟨.asc, d.fields, rfl⟩

end IndexDefinition

namespace Index

variable {definition : IndexDefinition} {tenantField : String}

theorem direction_of_partFor?
    {doc : Document}
    {f : SortField}
    {part : KeyPart}
    (h : partFor? tenantField doc f = some part) :
    part.direction = f.direction := by
  unfold partFor? at h
  split at h
  · cases h
    rfl
  · split at h
    · cases h
    · obtain ⟨v, -, rfl⟩ := Option.map_eq_some_iff.1 h
      rfl

theorem follows_of_keyFor?
    {doc : Document}
    {key : Key}
    (h : keyFor? definition tenantField doc = some key) :
    Key.Follows definition.directionAt key := by
  intro position part hpart
  rw [getElem?_of_mapM_eq_some h, Option.bind_eq_some_iff] at hpart
  obtain ⟨f, hf, hpart⟩ := hpart
  rw [direction_of_partFor? hpart, IndexDefinition.directionAt, hf]
  rfl

theorem getElem?_zero_of_keyFor?
    (hfirst : definition.TenantFirst tenantField)
    {doc : Document}
    {key : Key}
    (h : keyFor? definition tenantField doc = some key) :
    ∃ direction, key[0]? = some ⟨.string doc.tenant, direction⟩ := by
  obtain ⟨direction, rest, hfields⟩ := hfirst
  refine ⟨direction, ?_⟩
  rw [getElem?_of_mapM_eq_some h, hfields]
  simp [partFor?]

theorem tenant_eq_of_keyFor?
    (hfirst : definition.TenantFirst tenantField)
    {doc other : Document}
    {key : Key}
    (h : keyFor? definition tenantField doc = some key)
    (hother : keyFor? definition tenantField other = some key) :
    other.tenant = doc.tenant := by
  obtain ⟨direction, hhead⟩ := getElem?_zero_of_keyFor? hfirst h
  obtain ⟨direction', hhead'⟩ := getElem?_zero_of_keyFor? hfirst hother
  have hparts := hhead.symm.trans hhead'
  simp only [Option.some.injEq, KeyPart.mk.injEq, KeyValue.string.injEq] at hparts
  exact hparts.1.symm

/-- The entry that a document would have in an index of its collection. -/
def entryFor?
    (definition : IndexDefinition)
    (tenantField : String)
    (doc : Document) :
    Option (Key × DocumentPath) :=
  (keyFor? definition tenantField doc).map fun key => (key, doc.path)

theorem key_eq_of_entryFor?
    (hfirst : definition.TenantFirst tenantField)
    {doc other : Document}
    {e : Key × DocumentPath}
    (h : entryFor? definition tenantField doc = some e)
    (hother : entryFor? definition tenantField other = some e) :
    (⟨other.tenant, other.path⟩ : DocumentKey) = ⟨doc.tenant, doc.path⟩ := by
  obtain ⟨key, hkey, rfl⟩ := Option.map_eq_some_iff.1 h
  obtain ⟨key', hkey', he⟩ := Option.map_eq_some_iff.1 hother
  obtain ⟨hkeys, hpaths⟩ := Prod.mk.inj he
  rw [tenant_eq_of_keyFor? hfirst hkey (hkeys ▸ hkey'), hpaths]

/-! ### Entering and leaving -/

@[simp] theorem definition_add
    (index : Index)
    (tenantField : String)
    (doc : Document) :
    (index.add tenantField doc).definition = index.definition := by
  unfold add
  split <;> rfl

@[simp] theorem definition_remove
    (index : Index)
    (tenantField : String)
    (doc : Document) :
    (index.remove tenantField doc).definition = index.definition := by
  unfold remove
  split <;> rfl

@[simp] theorem definition_follow
    (index : Index)
    (tenantField : String)
    (change : Change) :
    (index.follow tenantField change).definition = index.definition := by
  unfold follow
  split
  · cases change.before <;> cases change.after <;> simp
  · rfl

/-- An index whose tree goes in the directions of its fields. -/
def Sound (index : Index) : Prop :=
  index.tree.Sound index.definition.directionAt

/-- An index stays sound when a document enters. -/
theorem Sound.add
    {index : Index}
    (h : index.Sound)
    (tenantField : String)
    (doc : Document) :
    (index.add tenantField doc).Sound := by
  unfold Sound
  rw [definition_add]
  unfold Index.add
  split
  · exact h
  · next key hkey =>
      exact Tree.Sound.insert h (follows_of_keyFor? hkey) doc.path

/-- The entry of a document that enters joins those that were there. -/
theorem Sound.mem_add
    {index : Index}
    (h : index.Sound)
    (tenantField : String)
    (doc : Document)
    (e : Key × DocumentPath) :
    e ∈ (index.add tenantField doc).tree.toList ↔
      entryFor? index.definition tenantField doc = some e ∨ e ∈ index.tree.toList := by
  unfold Index.add entryFor?
  cases hkey : keyFor? index.definition tenantField doc with
  | none =>
      simp
  | some key =>
      rw [Tree.Sound.mem_insert h (follows_of_keyFor? hkey)]
      simp [eq_comm]

/-- An index stays sound when a document leaves. -/
theorem Sound.remove
    {index : Index}
    (h : index.Sound)
    (tenantField : String)
    (doc : Document) :
    (index.remove tenantField doc).Sound := by
  unfold Sound
  rw [definition_remove]
  unfold Index.remove
  split
  · exact h
  · next key hkey =>
      exact Tree.Sound.erase h key doc.path

theorem Sound.mem_remove
    {index : Index}
    (h : index.Sound)
    (tenantField : String)
    (doc : Document)
    (e : Key × DocumentPath) :
    e ∈ (index.remove tenantField doc).tree.toList ↔
      entryFor? index.definition tenantField doc ≠ some e ∧ e ∈ index.tree.toList := by
  unfold Index.remove entryFor?
  cases hkey : keyFor? index.definition tenantField doc with
  | none =>
      simp
  | some key =>
      rw [Tree.Sound.mem_erase h (follows_of_keyFor? hkey)]
      simp [eq_comm]

/-- An index stays sound when it follows a change. -/
theorem Sound.follow
    {index : Index}
    (h : index.Sound)
    (tenantField : String)
    (change : Change) :
    (index.follow tenantField change).Sound := by
  unfold Index.follow
  split
  · cases change.before with
    | none =>
        cases change.after with
        | none =>
            exact h
        | some after =>
            exact h.add tenantField after
    | some before =>
        have hremoved := h.remove tenantField before
        cases change.after with
        | none =>
            exact hremoved
        | some after =>
            exact hremoved.add tenantField after
  · exact h

/-- The entries after a change: those of the earlier form are gone, those of the later one are in. -/
theorem Sound.mem_follow
    {index : Index}
    (h : index.Sound)
    (tenantField : String)
    {change : Change}
    (hcollection : index.definition.collection = change.path.collection)
    (e : Key × DocumentPath) :
    e ∈ (index.follow tenantField change).tree.toList ↔
      change.after.bind (entryFor? index.definition tenantField) = some e ∨
        (change.before.bind (entryFor? index.definition tenantField) ≠ some e ∧
          e ∈ index.tree.toList) := by
  unfold Index.follow
  rw [if_pos hcollection]
  cases change.before with
  | none =>
      cases change.after with
      | none =>
          simp
      | some after =>
          simp [h.mem_add]
  | some before =>
      cases change.after with
      | none =>
          simp [h.mem_remove]
      | some after =>
          simp [(h.remove tenantField before).mem_add, h.mem_remove]

end Index
end DocumentStore
