import DocumentStore.Proofs.Binary64.Rounding
import Mathlib.Data.Nat.Dist

/-!
# Rounding is to the nearest

A quotient lies between the values of two neighbouring magnitudes, since within a
binade the values are the whole multiples of one step.  Every other magnitude is
further away than these two, so the one that rounding takes is nearest to the
quotient, and the even one where both are as near.  There is one such magnitude
only.  A decimal is such a quotient, with a power of ten below.
-/

namespace DocumentStore
namespace Binary64

/--
A magnitude is nearest to a quotient of units: no other has a nearer value, and it is
even where another is as near.  The magnitudes from the limit on count with the
values that they had if exponents went on.
-/
structure Nearest (num den m : Nat) : Prop where
  le : ∀ other, Nat.dist num (unitsOf m * den) ≤ Nat.dist num (unitsOf other * den)
  even : ∀ other, other ≠ m →
    Nat.dist num (unitsOf other * den) = Nat.dist num (unitsOf m * den) → m % 2 = 0

section Neighbours

variable {num den m n : Nat}

theorem unitsOf_mul_le
    (den : Nat)
    (h : m ≤ n) :
    unitsOf m * den ≤ unitsOf n * den :=
  Nat.mul_le_mul_right den (strictMono_unitsOf.monotone h)

theorem unitsOf_mul_lt
    (hden : 0 < den)
    (h : m < n) :
    unitsOf m * den < unitsOf n * den :=
  Nat.mul_lt_mul_of_pos_right (strictMono_unitsOf h) hden

theorem unitsOf_mul_side
    (den m other : Nat) :
    unitsOf other * den ≤ unitsOf m * den ∨ unitsOf (m + 1) * den ≤ unitsOf other * den :=
  (Nat.lt_or_ge m other).symm.imp (unitsOf_mul_le den) (unitsOf_mul_le den)

/-- The lower one of two neighbours is nearest to what lies in the lower half between them. -/
theorem nearest_of_lower
    (hden : 0 < den)
    (hlow : unitsOf m * den ≤ num)
    (h : 2 * num < unitsOf m * den + unitsOf (m + 1) * den) :
    Nearest num den m := by
  refine ⟨fun other => ?_, fun other hne heq => ?_⟩
  · have hside := unitsOf_mul_side den m other
    unfold Nat.dist
    omega
  · have hside : unitsOf other * den < unitsOf m * den ∨
        unitsOf (m + 1) * den ≤ unitsOf other * den :=
      (Nat.lt_or_gt_of_ne hne).imp (unitsOf_mul_lt hden) (unitsOf_mul_le den)
    unfold Nat.dist at heq
    omega

/-- The upper one of two neighbours is nearest to what lies in the upper half between them. -/
theorem nearest_of_upper
    (hden : 0 < den)
    (hhigh : num ≤ unitsOf (m + 1) * den)
    (h : unitsOf m * den + unitsOf (m + 1) * den < 2 * num) :
    Nearest num den (m + 1) := by
  refine ⟨fun other => ?_, fun other hne heq => ?_⟩
  · have hside := unitsOf_mul_side den m other
    unfold Nat.dist
    omega
  · have hside : unitsOf other * den ≤ unitsOf m * den ∨
        unitsOf (m + 1) * den < unitsOf other * den :=
      (Nat.lt_or_gt_of_ne hne).imp (fun hlt => unitsOf_mul_le den (Nat.le_of_lt_succ hlt))
        (unitsOf_mul_lt hden)
    unfold Nat.dist at heq
    omega

/-- The even one of two neighbours is nearest to what lies half-way between them. -/
theorem nearest_of_middle
    (h : 2 * num = unitsOf m * den + unitsOf (m + 1) * den) :
    Nearest num den (m + m % 2) := by
  have hstep : unitsOf m * den ≤ unitsOf (m + 1) * den := unitsOf_mul_le den (Nat.le_add_right m 1)
  refine ⟨fun other => ?_, fun other _ _ => by omega⟩
  have hside := unitsOf_mul_side den m other
  unfold Nat.dist
  rcases Nat.mod_two_eq_zero_or_one m with hparity | hparity <;> rw [hparity]
  · rw [Nat.add_zero]
    omega
  · omega

/-- What lies between two magnitudes as near to a quotient is nearer. -/
theorem dist_lt_of_between
    {other : Nat}
    (hden : 0 < den)
    (hlow : m < other)
    (hhigh : other < n)
    (h : Nat.dist num (unitsOf m * den) = Nat.dist num (unitsOf n * den)) :
    Nat.dist num (unitsOf other * den) < Nat.dist num (unitsOf m * den) := by
  have hlow := unitsOf_mul_lt hden hlow
  have hhigh := unitsOf_mul_lt hden hhigh
  unfold Nat.dist at h ⊢
  omega

/-- There is one nearest magnitude only. -/
theorem Nearest.eq
    (hden : 0 < den)
    (hm : Nearest num den m)
    (hn : Nearest num den n) :
    m = n := by
  have hlt : ∀ {m n : Nat}, Nearest num den m → Nearest num den n → ¬ m < n := by
    intro m n hm hn h
    have hsame := Nat.le_antisymm (hm.le n) (hn.le m)
    -- both are even, so there is a magnitude between them, and it would be nearer
    have hparity := hm.even n (Nat.ne_of_gt h) hsame.symm
    have hparity' := hn.even m (Nat.ne_of_lt h) hsame
    have hbetween := dist_lt_of_between hden (Nat.lt_succ_self m) (by omega) hsame
    exact absurd (hm.le (m + 1)) (Nat.not_le.2 hbetween)
  exact Nat.le_antisymm (Nat.not_lt.1 (hlt hn hm)) (Nat.not_lt.1 (hlt hm hn))

end Neighbours

/-! ### Quotients -/

/-- The value of a multiple of the step of a binade. -/
theorem unitsOf_multiple
    {shift k : Nat}
    (hlow : shift ≠ 0 → fractionBound ≤ k)
    (hhigh : k ≤ 2 * fractionBound) :
    unitsOf (shift * fractionBound + k) = k <<< shift := by
  rcases Nat.lt_or_ge k fractionBound with hk | hk
  · obtain rfl : shift = 0 := by
      by_contra hshift
      exact Nat.not_le.2 hk (hlow hshift)
    rw [Nat.zero_mul, Nat.zero_add, unitsOf_of_lt hk, Nat.shiftLeft_zero]
  · obtain ⟨f, rfl⟩ := Nat.exists_eq_add_of_le hk
    rcases Nat.lt_or_ge f fractionBound with hf | hf
    · rw [← unitsOf_of_exponent shift hf, Nat.add_mul, Nat.one_mul, Nat.add_assoc]
    · -- the multiple is the least number of the next binade
      obtain rfl : f = fractionBound := by omega
      have hnext := unitsOf_of_exponent (shift + 1) (f := 0) (by decide)
      have hsum : shift * fractionBound + (fractionBound + fractionBound) =
          (shift + 1 + 1) * fractionBound + 0 := by
        rw [Nat.add_zero, Nat.succ_mul, Nat.succ_mul, Nat.add_assoc]
      rw [hsum, hnext, Nat.add_zero, Nat.shiftLeft_succ, Nat.shiftLeft_eq, Nat.shiftLeft_eq,
        ← Nat.two_mul, Nat.mul_assoc]

/-- Where the multiples of a step are the values of magnitudes, the rounded one is nearest. -/
theorem nearest_roundQuotient
    {num den step base : Nat}
    (hden : 0 < den)
    (hstep : 0 < step)
    (hbase : base % 2 = 0)
    (hlower : unitsOf (base + num / step) * den = num / step * step)
    (hupper : unitsOf (base + num / step + 1) * den = num / step * step + step) :
    Nearest num den (base + roundQuotient num step) := by
  have hdivision := Nat.div_add_mod' num step
  have hrest := Nat.mod_lt num hstep
  have hparity : (base + num / step) % 2 = num / step % 2 := by omega
  unfold roundQuotient
  dsimp only
  generalize hm : base + num / step = m at hlower hupper hparity
  split_ifs with hbelow habove
  · rw [hm]
    exact nearest_of_lower hden (by omega) (by omega)
  · rw [← Nat.add_assoc, hm]
    exact nearest_of_upper hden (by omega) (by omega)
  · rw [← Nat.add_assoc, hm, ← hparity]
    exact nearest_of_middle (by omega)

/-- The magnitude that a quotient is rounded to is nearest to it. -/
theorem nearest_nearestMagnitude
    (num : Nat)
    {den : Nat}
    (hden : 0 < den) :
    Nearest num den (nearestMagnitude num den) := by
  have hlow : shiftOf num den ≠ 0 → fractionBound ≤ num / (den <<< shiftOf num den) :=
    fractionBound_le_div_shift
  have hhigh := div_shift_lt num den
  rw [nearestMagnitude_eq]
  generalize shiftOf num den = shift at hlow hhigh ⊢
  have hvalue : ∀ k, unitsOf (shift * fractionBound + k) = k <<< shift →
      unitsOf (shift * fractionBound + k) * den = k * (den <<< shift) := by
    intro k hk
    rw [hk, Nat.shiftLeft_eq, Nat.shiftLeft_eq, Nat.mul_right_comm, Nat.mul_assoc]
  have hlower := hvalue _ (unitsOf_multiple hlow (Nat.le_of_lt hhigh))
  have hupper := hvalue _ (unitsOf_multiple (k := num / (den <<< shift) + 1)
    (fun hshift => Nat.le_succ_of_le (hlow hshift)) hhigh)
  rw [← Nat.add_assoc, Nat.succ_mul] at hupper
  refine nearest_roundQuotient hden ?_ ?_ hlower hupper
  · rw [Nat.shiftLeft_eq]
    exact Nat.mul_pos hden (Nat.two_pow_pos _)
  · rw [Nat.mul_mod, show fractionBound % 2 = 0 by decide, Nat.mul_zero]

/-! ### Decimals -/

/-- The number nearest to a quotient of units is told by its sign and its magnitude. -/
theorem ofUnits?_eq_some_iff
    {negative : Bool}
    {num den : Nat}
    (hden : 0 < den)
    {x : Binary64} :
    ofUnits? negative num den = some x ↔
      x.negative = negative ∧ Nearest num den x.magnitude := by
  have hnearest := nearest_nearestMagnitude num hden
  unfold ofUnits? ofMagnitude?
  constructor
  · intro h
    split at h
    · cases h
      exact ⟨rfl, hnearest⟩
    · cases h
  · rintro ⟨rfl, hx⟩
    rw [hnearest.eq hden hx, dif_pos x.finite]

/-- A quotient of units is out of range if the magnitude nearest to it is. -/
theorem ofUnits?_eq_none_iff
    {negative : Bool}
    {num den : Nat}
    (hden : 0 < den) :
    ofUnits? negative num den = none ↔ ∃ m, limit ≤ m ∧ Nearest num den m := by
  have hnearest := nearest_nearestMagnitude num hden
  unfold ofUnits? ofMagnitude?
  constructor
  · intro h
    split at h
    · cases h
    · next hlimit => exact ⟨_, Nat.not_lt.1 hlimit, hnearest⟩
  · rintro ⟨m, hlimit, hm⟩
    rw [hnearest.eq hden hm, dif_neg (Nat.not_lt.2 hlimit)]

theorem nearest_zero
    {num den : Nat}
    (h : 2 * num < den) :
    Nearest num den 0 := by
  have hzero : unitsOf 0 = 0 := rfl
  have hone : unitsOf (0 + 1) = 1 := rfl
  refine nearest_of_lower (by omega) ?_ ?_
  · rw [hzero, Nat.zero_mul]
    exact Nat.zero_le num
  · rwa [hzero, hone, Nat.zero_mul, Nat.zero_add, Nat.one_mul]

theorem two_pow_le_ten_pow
    {m n : Nat}
    (h : m ≤ 3 * n) :
    2 ^ m ≤ 10 ^ n :=
  calc
    2 ^ m ≤ 2 ^ (3 * n) := Nat.pow_le_pow_right (by decide) h
    _ = (2 ^ 3) ^ n := Nat.pow_mul ..
    _ ≤ 10 ^ n := Nat.pow_le_pow_left (by decide) n

theorem two_mul_lt_of_log2
    {digits places : Nat}
    (h : digits.log2 + 400 < places) :
    2 * (digits * one) < Nat.pow 10 places := by
  have hdigits : digits < 2 ^ (digits.log2 + 1) := Nat.lt_log2_self
  have hdouble : ∀ n, 2 * (1 <<< n) = 2 ^ (n + 1) := fun n => by
    rw [Nat.one_shiftLeft, Nat.pow_succ']
  obtain ⟨n, hn, hone⟩ : ∃ n, n = 1075 ∧ 2 * one = 2 ^ n := ⟨_, rfl, hdouble 1074⟩
  calc
    2 * (digits * one) = digits * 2 ^ n := by rw [Nat.mul_left_comm, hone]
    _ < 2 ^ (digits.log2 + 1) * 2 ^ n :=
      Nat.mul_lt_mul_of_pos_right hdigits (Nat.two_pow_pos n)
    _ = 2 ^ (digits.log2 + 1 + n) := (Nat.pow_add ..).symm
    _ ≤ 10 ^ places := two_pow_le_ten_pow (by omega)

/-- A decimal is rounded as a quotient, also where that is foreseen to be zero. -/
theorem ofDecimal?_eq_ofUnits?
    (digits places : Nat) :
    ofDecimal? false digits (-places) = ofUnits? false (digits * one) (10 ^ places) := by
  have hpower : 0 < 10 ^ places := Nat.pow_pos (by decide)
  unfold ofDecimal?
  split_ifs with hzero hlarge hsmall hwhole
  · symm
    rw [ofUnits?_eq_some_iff hpower, hzero, Nat.zero_mul]
    exact ⟨rfl, nearest_zero hpower⟩
  · omega
  · symm
    rw [ofUnits?_eq_some_iff hpower]
    exact ⟨rfl, nearest_zero (two_mul_lt_of_log2 (by omega))⟩
  · obtain rfl : places = 0 := by omega
    exact congrArg (ofUnits? false · 1) (congrArg (· * one) (Nat.mul_one digits))
  · rw [Int.neg_neg, Int.toNat_natCast]
    rfl

theorem ofDecimal?_eq_some_iff
    (digits places : Nat)
    {x : Binary64} :
    ofDecimal? false digits (-places) = some x ↔
      x.negative = false ∧ Nearest (digits * one) (10 ^ places) x.magnitude := by
  have hpower : 0 < 10 ^ places := Nat.pow_pos (by decide)
  rw [← ofUnits?_eq_some_iff hpower, ofDecimal?_eq_ofUnits?]

theorem ofDecimal?_eq_none_iff
    (digits places : Nat) :
    ofDecimal? false digits (-places) = none ↔
      ∃ m, limit ≤ m ∧ Nearest (digits * one) (10 ^ places) m := by
  have hpower : 0 < 10 ^ places := Nat.pow_pos (by decide)
  rw [← ofUnits?_eq_none_iff hpower, ofDecimal?_eq_ofUnits?]

end Binary64
end DocumentStore
