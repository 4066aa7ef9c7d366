import DocumentStore.Index.Key
import Mathlib.Order.Monotone.Basic

/-!
# Laws of binary64 numbers

A larger magnitude is a larger value: within one exponent the fraction grows,
and the least number of an exponent lies above the greatest of the exponent
below.  So the ranks of numbers are ordered as their values are, and only the
two zeros share one.
-/

namespace DocumentStore
namespace Binary64

/-! ### Magnitudes and values -/

theorem unitsOf_of_lt
    {m : Nat}
    (h : m < fractionBound) :
    unitsOf m = m := by
  rw [unitsOf, significand, if_pos h, Nat.div_eq_of_lt h, Nat.zero_sub, Nat.shiftLeft_zero]

/-- The value of an exponent and a fraction. -/
theorem unitsOf_of_exponent
    (e : Nat)
    {f : Nat}
    (h : f < fractionBound) :
    unitsOf ((e + 1) * fractionBound + f) = (fractionBound + f) <<< e := by
  have hpos : 0 < fractionBound := by decide
  have hquotient : ((e + 1) * fractionBound + f) / fractionBound = e + 1 := by
    rw [Nat.add_comm, Nat.add_mul_div_right _ _ hpos, Nat.div_eq_of_lt h, Nat.zero_add]
  have hrest : ((e + 1) * fractionBound + f) % fractionBound = f := by
    rw [Nat.mul_add_mod_self_right, Nat.mod_eq_of_lt h]
  have hlarge : ¬ (e + 1) * fractionBound + f < fractionBound := by
    rw [← Nat.div_eq_zero_iff_lt hpos, hquotient]
    omega
  rw [unitsOf, significand, if_neg hlarge, hquotient, hrest, Nat.add_sub_cancel]

/-- Every magnitude is a value below the first exponent, or an exponent and a fraction. -/
theorem magnitude_cases (m : Nat) :
    m < fractionBound ∨
      ∃ e f, f < fractionBound ∧ m = (e + 1) * fractionBound + f := by
  have hpos : 0 < fractionBound := by decide
  have hdivision : m / fractionBound * fractionBound + m % fractionBound = m :=
    Nat.div_add_mod' m fractionBound
  cases hexponent : m / fractionBound with
  | zero =>
      exact .inl ((Nat.div_eq_zero_iff_lt hpos).1 hexponent)
  | succ e =>
      rw [hexponent] at hdivision
      exact .inr ⟨e, m % fractionBound, Nat.mod_lt m hpos, hdivision.symm⟩

/-- Larger magnitudes have larger values. -/
theorem strictMono_unitsOf :
    StrictMono unitsOf := by
  refine strictMono_nat_of_lt_succ fun m => ?_
  have hbound : fractionBound = 0x10000000000000 := rfl
  rcases magnitude_cases m with hm | ⟨e, f, hf, rfl⟩
  · rw [unitsOf_of_lt hm]
    rcases Nat.lt_or_eq_of_le (Nat.succ_le_of_lt hm) with hnext | hnext
    · rw [unitsOf_of_lt hnext]
      exact Nat.lt_succ_self m
    · have hfirst := unitsOf_of_exponent 0 (f := 0) (by omega)
      rw [show m + 1 = (0 + 1) * fractionBound + 0 by omega, hfirst, Nat.shiftLeft_zero]
      omega
  · have hpower : 0 < 2 ^ e := Nat.two_pow_pos e
    rw [unitsOf_of_exponent e hf, Nat.shiftLeft_eq]
    rcases Nat.lt_or_eq_of_le (Nat.succ_le_of_lt hf) with hnext | hnext
    · rw [Nat.add_assoc, unitsOf_of_exponent e hnext, Nat.shiftLeft_eq]
      exact Nat.mul_lt_mul_of_pos_right (by omega) hpower
    · -- the fraction is the greatest of its exponent
      have hfirst := unitsOf_of_exponent (e + 1) (f := 0) (by omega)
      have hstep : (e + 1) * fractionBound + f + 1 = (e + 1 + 1) * fractionBound + 0 := by
        rw [Nat.add_mul (e + 1)]
        omega
      rw [hstep, hfirst, Nat.shiftLeft_eq, Nat.pow_succ', ← Nat.mul_assoc]
      exact Nat.mul_lt_mul_of_pos_right (by omega) hpower

/-! ### Ranks -/

/-- Ranks are ordered as values are. -/
theorem rank_lt_rank_iff (x y : Binary64) :
    x.rank < y.rank ↔ x.units < y.units := by
  have hxy : unitsOf x.magnitude < unitsOf y.magnitude ↔ x.magnitude < y.magnitude :=
    strictMono_unitsOf.lt_iff_lt
  have hyx : unitsOf y.magnitude < unitsOf x.magnitude ↔ y.magnitude < x.magnitude :=
    strictMono_unitsOf.lt_iff_lt
  have hx : unitsOf 0 < unitsOf x.magnitude ↔ 0 < x.magnitude := strictMono_unitsOf.lt_iff_lt
  have hy : unitsOf 0 < unitsOf y.magnitude ↔ 0 < y.magnitude := strictMono_unitsOf.lt_iff_lt
  have hzero : unitsOf 0 = 0 := rfl
  have hlimit : limit < signBit := by decide
  have hfinite := x.finite
  have hfinite' := y.finite
  unfold rank rankOf units signedUnits
  cases x.negative <;> cases y.negative <;>
    simp only [Bool.false_eq_true, if_true, if_false] <;>
    split <;> split <;> omega

theorem order_eq_compare_rank (x y : Binary64) :
    x.order y = compare x.rank y.rank := by
  have hlt := rank_lt_rank_iff x y
  have hgt := rank_lt_rank_iff y x
  unfold order
  rcases lt_trichotomy x.units y.units with h | h | h
  · rw [compare_lt_iff_lt.2 h, compare_lt_iff_lt.2 (hlt.2 h)]
  · have hrank : x.rank = y.rank := by omega
    rw [compare_eq_iff_eq.2 h, compare_eq_iff_eq.2 hrank]
  · rw [compare_gt_iff_gt.2 h, compare_gt_iff_gt.2 (hgt.2 h)]

end Binary64
end DocumentStore
