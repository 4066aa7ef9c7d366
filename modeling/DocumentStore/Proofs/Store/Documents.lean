import DocumentStore.Proofs.OrderedMap
import DocumentStore.Store.Write

/-!
# What a write does to the documents

`Documents.Applied` lists the ways in which a write can succeed, with the
change that it makes and the documents that it leaves.  The version of a
document after a write is the one that `Write.check` announces.
-/

namespace DocumentStore
namespace Documents

/-- The ways in which a write succeeds. -/
inductive Applied
    (docs : Documents)
    (tenant : String)
    (now : Timestamp) :
    Write → Option Change → Documents → Prop
  | create
      {path : DocumentPath}
      {data : Json}
      (hnone : docs.get? ⟨tenant, path⟩ = none) :
      Applied docs tenant now (.create path data)
        (some ⟨.create, tenant, path, none, some (Document.new path data tenant now)⟩)
        (docs.insert ⟨tenant, path⟩ (Document.new path data tenant now))
  | update
      {path : DocumentPath}
      {data : Json}
      {ifVersion : Option UInt64}
      {merge : Bool}
      {before : Document}
      (hsome : docs.get? ⟨tenant, path⟩ = some before)
      (hguard : ∀ v, ifVersion = some v → v.toNat = before.version) :
      Applied docs tenant now (.update path data ifVersion merge)
        (some ⟨.update, tenant, path, some before, some (before.revise data merge now)⟩)
        (docs.insert ⟨tenant, path⟩ (before.revise data merge now))
  | delete
      {path : DocumentPath}
      {ifVersion : Option UInt64}
      {before : Document}
      (hsome : docs.get? ⟨tenant, path⟩ = some before)
      (hguard : ∀ v, ifVersion = some v → v.toNat = before.version) :
      Applied docs tenant now (.delete path ifVersion)
        (some ⟨.delete, tenant, path, some before, none⟩)
        (docs.erase ⟨tenant, path⟩)
  | absent
      {path : DocumentPath}
      {ifVersion : Option UInt64}
      (hnone : docs.get? ⟨tenant, path⟩ = none) :
      Applied docs tenant now (.delete path ifVersion) none docs

theorem version_of_guard_eq_ok
    {path : DocumentPath}
    {ifVersion : Option UInt64}
    {current : Nat}
    {next result : Option Nat}
    (h : Write.guard path ifVersion current next = .ok result) :
    result = next ∧ ∀ v, ifVersion = some v → v.toNat = current := by
  unfold Write.guard at h
  split at h
  · exact ⟨(Except.ok.inj h).symm, fun v hv => absurd hv (by simp)⟩
  · next expected =>
      split at h
      · next heq =>
          refine ⟨(Except.ok.inj h).symm, fun v hv => ?_⟩
          rw [← Option.some.inj hv, heq]
      · cases h

/-- A write that succeeds does so in one of the listed ways. -/
theorem applied_of_apply
    {docs docs' : Documents}
    {tenant : String}
    {write : Write}
    {now : Timestamp}
    {change : Option Change}
    (h : docs.apply tenant write now = .ok (change, docs')) :
    Applied docs tenant now write change docs' := by
  unfold apply at h
  cases hcurrent : docs.get? ⟨tenant, write.path⟩ with
  | none =>
      cases write with
      | create path data =>
          simp only [Write.path] at hcurrent
          simp [Write.path, Write.check, hcurrent] at h
          obtain ⟨rfl, rfl⟩ := h
          exact .create hcurrent
      | update path data ifVersion merge =>
          simp only [Write.path] at hcurrent
          simp [Write.path, Write.check, hcurrent] at h
      | delete path ifVersion =>
          simp only [Write.path] at hcurrent
          simp [Write.path, Write.check, hcurrent] at h
          obtain ⟨rfl, rfl⟩ := h
          exact .absent hcurrent
  | some before =>
      rw [hcurrent] at h
      cases hcheck : write.check tenant (some before.version) with
      | error e =>
          simp [hcheck] at h
      | ok next =>
          simp only [Option.map_some, hcheck] at h
          cases write with
          | create path data =>
              simp [Write.check] at hcheck
          | update path data ifVersion merge =>
              obtain ⟨rfl, rfl⟩ := Prod.mk.inj (Except.ok.inj h)
              exact .update hcurrent (version_of_guard_eq_ok hcheck).2
          | delete path ifVersion =>
              obtain ⟨rfl, rfl⟩ := Prod.mk.inj (Except.ok.inj h)
              exact .delete hcurrent (version_of_guard_eq_ok hcheck).2

/-- A write fails exactly as its check does. -/
theorem apply_eq_error_iff
    {docs : Documents}
    {tenant : String}
    {write : Write}
    {now : Timestamp}
    {e : StoreError} :
    docs.apply tenant write now = .error e ↔
      write.check tenant (docs.version? tenant write.path) = .error e := by
  unfold apply version?
  dsimp only
  split
  · next e' he =>
      rw [he]
      simp
  · next next hok =>
      rw [hok]
      cases write <;> cases docs.get? _ <;> simp

theorem get?_of_applied_of_ne
    {docs docs' : Documents}
    {tenant : String}
    {write : Write}
    {now : Timestamp}
    {change : Option Change}
    {key : DocumentKey}
    (h : Applied docs tenant now write change docs')
    (hne : key ≠ ⟨tenant, write.path⟩) :
    docs'.get? key = docs.get? key := by
  cases h with
  | create hnone =>
      exact (OrderedMap.get?_insert ..).trans (if_neg hne)
  | update hsome hguard =>
      exact (OrderedMap.get?_insert ..).trans (if_neg hne)
  | delete hsome hguard =>
      exact (OrderedMap.get?_erase ..).trans (if_neg hne)
  | absent hnone =>
      rfl

/-- After a write its document has the version that the check announces. -/
theorem version?_of_applied
    {docs docs' : Documents}
    {tenant : String}
    {write : Write}
    {now : Timestamp}
    {change : Option Change}
    {next : Option Nat}
    (h : Applied docs tenant now write change docs')
    (hcheck : write.check tenant (docs.version? tenant write.path) = .ok next) :
    docs'.version? tenant write.path = next := by
  unfold version? at hcheck ⊢
  cases h with
  | create hnone =>
      simp only [Write.path, Write.check, hnone, Option.map_none] at hcheck ⊢
      cases hcheck
      simp [OrderedMap.get?_insert, Document.new]
  | update hsome hguard =>
      simp only [Write.path, Write.check, hsome, Option.map_some] at hcheck ⊢
      simp [OrderedMap.get?_insert, Document.revise, (version_of_guard_eq_ok hcheck).1]
  | delete hsome hguard =>
      simp only [Write.path, Write.check, hsome, Option.map_some] at hcheck ⊢
      simp [OrderedMap.get?_erase, (version_of_guard_eq_ok hcheck).1]
  | absent hnone =>
      simp only [Write.path, Write.check, hnone, Option.map_none] at hcheck ⊢
      cases hcheck
      rfl

end Documents
end DocumentStore
