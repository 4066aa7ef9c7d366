import DocumentStore.Proofs.Text
import DocumentStore.Store.Transaction

/-!
# Derived keys

The key of a write in a transaction is the id of the transaction, a mark and
the position of the write.  The digits of the position do not contain the mark,
so a derived key tells both, whatever the id contains.
-/

namespace DocumentStore

theorem Text.mark_notMem_toDigits (n : Nat) :
    '#' ∉ Nat.toDigits 10 n := by
  intro h
  have hdigit := Nat.isDigit_of_mem_toDigits (by decide) (by decide) h
  exact absurd hdigit (by decide)

/-- A derived key tells the id and the position. -/
theorem Text.markedPosition_inj
    {id id' : String}
    {i j : Nat}
    (h : id ++ "#" ++ toString i = id' ++ "#" ++ toString j) :
    id = id' ∧ i = j := by
  have hlists : id.toList ++ '#' :: Nat.toDigits 10 i = id'.toList ++ '#' :: Nat.toDigits 10 j := by
    have htexts := congrArg String.toList h
    simpa [Nat.toString_eq_repr] using htexts
  obtain ⟨hid, hdigits⟩ := append_cons_inj_of_notMem_right (mark_notMem_toDigits i)
    (mark_notMem_toDigits j) hlists
  refine ⟨String.toList_inj.1 hid, ?_⟩
  rw [← Nat.ofDigitChars_ten_toDigits (n := i), hdigits, Nat.ofDigitChars_ten_toDigits]

namespace Transaction

theorem derivedKey_inj
    {tx tx' : Transaction}
    {i j : Nat}
    (h : tx.derivedKey i = tx'.derivedKey j) :
    tx.id = tx'.id ∧ i = j :=
  Text.markedPosition_inj h

theorem derivedKey_eq_iff
    {tx tx' : Transaction}
    {i j : Nat} :
    tx.derivedKey i = tx'.derivedKey j ↔ tx.id = tx'.id ∧ i = j := by
  refine ⟨derivedKey_inj, ?_⟩
  rintro ⟨hid, rfl⟩
  unfold derivedKey
  rw [hid]

theorem derivedKey_ne_id
    (tx : Transaction)
    (i : Nat) :
    tx.derivedKey i ≠ tx.id := by
  intro h
  have hlength := congrArg String.length h
  rw [derivedKey, String.length_append, String.length_append] at hlength
  have hmark : "#".length = 1 := rfl
  omega

end Transaction
end DocumentStore
