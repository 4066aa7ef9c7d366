import DocumentStore.Proofs.Store.Documents

/-!
# Documents stand where they say

A document knows its tenant and its path, and the id and collection that the
path gives it.  A stored document stands at the key of its own tenant and
path.  A write changes the document at one key; the change it makes tells the
form before and after, and both stand at that key.
-/

namespace DocumentStore

/-- A document that says of itself what belongs to a key. -/
structure Document.PlacedAt
    (key : DocumentKey)
    (d : Document) :
    Prop where
  tenant : d.tenant = key.tenant
  path : d.path = key.path
  id : d.id = key.path.id
  collection : d.collection = key.path.collection

namespace Document.PlacedAt

theorem new
    (path : DocumentPath)
    (data : Json)
    (tenant : String)
    (now : Timestamp) :
    PlacedAt ⟨tenant, path⟩ (Document.new path data tenant now) :=
  ⟨rfl, rfl, rfl, rfl⟩

/-- A later version stands where the earlier one stood. -/
theorem revise
    {key : DocumentKey}
    {d : Document}
    (h : PlacedAt key d)
    (data : Json)
    (merge : Bool)
    (now : Timestamp) :
    PlacedAt key (d.revise data merge now) :=
  ⟨h.tenant, h.path, h.id, h.collection⟩

theorem key_eq
    {key : DocumentKey}
    {d : Document}
    (h : PlacedAt key d) :
    key = ⟨d.tenant, d.path⟩ := by
  rw [h.tenant, h.path]

end Document.PlacedAt

namespace Documents

/-- Every document stands at its key. -/
def Placed (docs : Documents) : Prop :=
  ∀ key d, docs.get? key = some d → d.PlacedAt key

theorem Placed.empty : Placed OrderedMap.empty := by
  intro key d h
  cases h

/-- The key of the document that a change is about. -/
def keyOf (change : Change) : DocumentKey :=
  ⟨change.tenant, change.path⟩

/-- A change leads from some documents to others: it tells their difference. -/
structure ChangedBy
    (docs : Documents)
    (change : Change)
    (docs' : Documents) :
    Prop where
  before : docs.get? (keyOf change) = change.before
  after : docs'.get? (keyOf change) = change.after
  others : ∀ key, key ≠ keyOf change → docs'.get? key = docs.get? key

/-- A write that makes a change leads from the documents before it to those after it. -/
theorem changedBy_of_applied
    {docs docs' : Documents}
    {tenant : String}
    {write : Write}
    {now : Timestamp}
    {change : Change}
    (h : Applied docs tenant now write (some change) docs') :
    ChangedBy docs change docs' := by
  cases h with
  | create hnone =>
      exact
        { before := hnone
          after := (OrderedMap.get?_insert ..).trans (if_pos rfl)
          others := fun key hne => (OrderedMap.get?_insert ..).trans (if_neg hne) }
  | update hsome hguard =>
      exact
        { before := hsome
          after := (OrderedMap.get?_insert ..).trans (if_pos rfl)
          others := fun key hne => (OrderedMap.get?_insert ..).trans (if_neg hne) }
  | delete hsome hguard =>
      exact
        { before := hsome
          after := (OrderedMap.get?_erase ..).trans (if_pos rfl)
          others := fun key hne => (OrderedMap.get?_erase ..).trans (if_neg hne) }

/-- The form of a document after a write stands where the write was made. -/
theorem Placed.after
    {docs docs' : Documents}
    {tenant : String}
    {write : Write}
    {now : Timestamp}
    {change : Change}
    (hplaced : docs.Placed)
    (h : Applied docs tenant now write (some change) docs') :
    ∀ d, change.after = some d → d.PlacedAt (keyOf change) := by
  intro d hd
  cases h with
  | create hnone =>
      cases hd
      exact .new _ _ _ _
  | update hsome hguard =>
      cases hd
      exact (hplaced _ _ hsome).revise _ _ _
  | delete hsome hguard =>
      cases hd

/-- Writes leave every document in its place. -/
theorem Placed.apply
    {docs docs' : Documents}
    {tenant : String}
    {write : Write}
    {now : Timestamp}
    {change : Change}
    (hplaced : docs.Placed)
    (h : Applied docs tenant now write (some change) docs') :
    docs'.Placed := by
  have hchanged := changedBy_of_applied h
  intro key d hd
  by_cases hkey : key = keyOf change
  · subst hkey
    rw [hchanged.after] at hd
    exact hplaced.after h d hd
  · rw [hchanged.others key hkey] at hd
    exact hplaced key d hd

end Documents
end DocumentStore
