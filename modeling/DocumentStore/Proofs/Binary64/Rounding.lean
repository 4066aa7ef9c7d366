import DocumentStore.Proofs.Binary64

/-!
# Rounding keeps the order

A larger quotient is never rounded to a smaller number.  Within one binade the
quotients are rounded to whole multiples of one step, and that keeps their
order.  The steps of the binades fit together: what is rounded up at the end of
a binade reaches at most the least number of the next one.  So of two integers
the larger one never has the smaller binary64 number.
-/

namespace DocumentStore
namespace Binary64

/-! ### Quotients -/

theorem div_le_roundQuotient (num den : Nat) :
    num / den ≤ roundQuotient num den := by
  unfold roundQuotient
  dsimp only
  split_ifs <;> omega

theorem roundQuotient_le_succ (num den : Nat) :
    roundQuotient num den ≤ num / den + 1 := by
  unfold roundQuotient
  dsimp only
  split_ifs <;> omega

/-- Larger quotients are not rounded to smaller numbers. -/
theorem roundQuotient_mono
    {a b : Nat}
    (den : Nat)
    (h : a ≤ b) :
    roundQuotient a den ≤ roundQuotient b den := by
  rcases Nat.lt_or_eq_of_le (Nat.div_le_div_right (c := den) h) with hwhole | hwhole
  · calc
      roundQuotient a den ≤ a / den + 1 := roundQuotient_le_succ a den
      _ ≤ b / den := hwhole
      _ ≤ roundQuotient b den := div_le_roundQuotient b den
  · -- the wholes are equal, so the remainders are in order
    have hrest : a % den ≤ b % den := by
      have ha := Nat.div_add_mod a den
      have hb := Nat.div_add_mod b den
      rw [hwhole] at ha
      omega
    unfold roundQuotient
    dsimp only
    rw [hwhole]
    split_ifs <;> omega

/-! ### Binades -/

/-- By how many places a quotient is shifted so that it has at most 53 digits. -/
def shiftOf (num den : Nat) : Nat :=
  (num / den).log2 - 52

theorem shiftOf_mono
    {a b : Nat}
    (den : Nat)
    (h : a ≤ b) :
    shiftOf a den ≤ shiftOf b den := by
  have hquotient : a / den ≤ b / den := Nat.div_le_div_right h
  refine Nat.sub_le_sub_right ?_ 52
  by_cases hzero : a / den = 0
  · rw [hzero]
    exact Nat.zero_le _
  · have hpos : 0 < b / den := Nat.lt_of_lt_of_le (Nat.pos_of_ne_zero hzero) hquotient
    rw [Nat.le_log2 hpos.ne']
    exact Nat.le_trans (Nat.log2_self_le hzero) hquotient

theorem div_shift_lt (num den : Nat) :
    num / (den <<< shiftOf num den) < 2 * fractionBound := by
  have hdigits : num / den < 2 ^ (shiftOf num den + 53) := by
    refine Nat.lt_of_lt_of_le Nat.lt_log2_self (Nat.pow_le_pow_right (by decide) ?_)
    unfold shiftOf
    omega
  rw [Nat.shiftLeft_eq, ← Nat.div_div_eq_div_mul]
  refine Nat.div_lt_of_lt_mul ?_
  rwa [show 2 * fractionBound = 2 ^ 53 by decide, ← Nat.pow_add]

theorem roundQuotient_shift_le (num den : Nat) :
    roundQuotient num (den <<< shiftOf num den) ≤ 2 * fractionBound :=
  Nat.le_trans (roundQuotient_le_succ _ _) (div_shift_lt num den)

/-- A quotient that was shifted is not below 2^52 after it. -/
theorem fractionBound_le_div_shift
    {num den : Nat}
    (h : shiftOf num den ≠ 0) :
    fractionBound ≤ num / (den <<< shiftOf num den) := by
  have hlarge : 52 < (num / den).log2 := by
    unfold shiftOf at h
    omega
  have hpos : num / den ≠ 0 := by
    intro hzero
    rw [hzero] at hlarge
    exact absurd hlarge (by decide)
  have hdigits : 2 ^ (shiftOf num den + 52) ≤ num / den := by
    have hlog : shiftOf num den + 52 = (num / den).log2 := by
      unfold shiftOf
      omega
    rw [hlog]
    exact Nat.log2_self_le hpos
  rw [Nat.shiftLeft_eq, ← Nat.div_div_eq_div_mul, Nat.le_div_iff_mul_le (Nat.two_pow_pos _),
    show fractionBound = 2 ^ 52 by decide, ← Nat.pow_add, Nat.add_comm]
  exact hdigits

theorem fractionBound_le_roundQuotient_shift
    {num den : Nat}
    (h : shiftOf num den ≠ 0) :
    fractionBound ≤ roundQuotient num (den <<< shiftOf num den) :=
  Nat.le_trans (fractionBound_le_div_shift h) (div_le_roundQuotient _ _)

theorem nearestMagnitude_eq (num den : Nat) :
    nearestMagnitude num den =
      shiftOf num den * fractionBound + roundQuotient num (den <<< shiftOf num den) :=
  rfl

/-- Larger quotients do not have smaller nearest magnitudes. -/
theorem nearestMagnitude_mono
    {a b : Nat}
    (den : Nat)
    (h : a ≤ b) :
    nearestMagnitude a den ≤ nearestMagnitude b den := by
  rw [nearestMagnitude_eq, nearestMagnitude_eq]
  rcases Nat.lt_or_eq_of_le (shiftOf_mono den h) with hshift | hshift
  · -- the binades differ: the greatest magnitude of the one is the least of the next
    have hlow := roundQuotient_shift_le a den
    have hhigh : fractionBound ≤ roundQuotient b (den <<< shiftOf b den) :=
      fractionBound_le_roundQuotient_shift (by omega)
    calc
      _ ≤ shiftOf a den * fractionBound + 2 * fractionBound := Nat.add_le_add_left hlow _
      _ = (shiftOf a den + 1) * fractionBound + fractionBound := by
        rw [Nat.add_mul, Nat.one_mul, Nat.two_mul, Nat.add_assoc]
      _ ≤ shiftOf b den * fractionBound + fractionBound :=
        Nat.add_le_add_right (Nat.mul_le_mul_right _ hshift) _
      _ ≤ _ := Nat.add_le_add_left hhigh _
  · rw [hshift]
    exact Nat.add_le_add_left (roundQuotient_mono _ h) _

/-! ### Integers -/

/-- The magnitude of an integer, which is that of the largest number if it is out of range. -/
theorem magnitude_ofInt (i : Int) :
    (ofInt i).magnitude = min (nearestMagnitude (i.natAbs * one) 1) (limit - 1) := by
  unfold ofInt ofUnits? ofMagnitude?
  split
  · next h =>
      exact (Nat.min_eq_left (Nat.le_pred_of_lt h)).symm
  · next h =>
      exact (Nat.min_eq_right (Nat.le_trans (Nat.sub_le limit 1) (Nat.le_of_not_lt h))).symm

theorem negative_ofInt (i : Int) :
    (ofInt i).negative = decide (i < 0) := by
  unfold ofInt ofUnits? ofMagnitude?
  split <;> rfl

/-- Integers of larger absolute value do not have smaller magnitudes. -/
theorem magnitude_ofInt_mono
    {i j : Int}
    (h : i.natAbs ≤ j.natAbs) :
    (ofInt i).magnitude ≤ (ofInt j).magnitude := by
  have hnearest := nearestMagnitude_mono 1 (Nat.mul_le_mul_right one h)
  rw [magnitude_ofInt, magnitude_ofInt]
  omega

/-- Larger integers do not have smaller binary64 numbers. -/
theorem units_ofInt_mono
    {i j : Int}
    (hij : i ≤ j) :
    (ofInt i).units ≤ (ofInt j).units := by
  have hmono : ∀ {k l : Int}, k.natAbs ≤ l.natAbs →
      unitsOf (ofInt k).magnitude ≤ unitsOf (ofInt l).magnitude :=
    fun h => strictMono_unitsOf.monotone (magnitude_ofInt_mono h)
  dsimp only [units, signedUnits]
  rw [negative_ofInt, negative_ofInt]
  by_cases hi : i < 0 <;> by_cases hj : j < 0 <;> simp only [hi, hj, decide_true, decide_false,
    Bool.false_eq_true, if_true, if_false]
  · have habs := hmono (k := j) (l := i) (by omega)
    omega
  · omega
  · omega
  · have habs := hmono (k := i) (l := j) (by omega)
    omega

theorem rank_ofInt_mono
    {i j : Int}
    (hij : i ≤ j) :
    (ofInt i).rank ≤ (ofInt j).rank := by
  refine Nat.le_of_not_lt fun h => ?_
  exact absurd ((rank_lt_rank_iff _ _).1 h) (Int.not_lt.2 (units_ofInt_mono hij))

end Binary64
end DocumentStore
