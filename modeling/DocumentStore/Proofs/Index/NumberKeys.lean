import DocumentStore.Proofs.Binary64.Rounding
import Mathlib.Data.Int.ConditionallyCompleteOrder
import Mathlib.Order.ConditionallyCompleteLattice.Basic
import Mathlib.Order.WithBot

/-!
# Keys of numbers

The key of a number is its 64 bits with the first one inverted, or with all of
them inverted if that one is set.  Over all bit patterns but those of the
undefined numbers, the infinities included, the keys are ordered as the numbers
are, and only the two zeros share one.  Integers are rounded before they get a
key; that may give two of them one key, but never puts the larger one first.
-/

namespace DocumentStore
namespace Binary64

/-! ### Bit patterns -/

/-- The sign of a bit pattern, its first bit. -/
def signOf (w : UInt64) : Bool :=
  w >>> 63 = 1

/-- The magnitude of a bit pattern, its other bits. -/
def magnitudeOf (w : UInt64) : Nat :=
  w.toNat % signBit

/-- A pattern that stands for a number: it is no greater than that of an infinity. -/
def IsNumber (w : UInt64) : Prop :=
  magnitudeOf w ≤ limit

instance (w : UInt64) : Decidable (IsNumber w) :=
  inferInstanceAs (Decidable (_ ≤ _))

/-- The number of a pattern, counted in units; the infinities lie beyond all others. -/
def numberOf (w : UInt64) : WithBot (WithTop Int) :=
  if magnitudeOf w = limit then
    if signOf w then ⊥ else ((⊤ : WithTop Int) : WithBot (WithTop Int))
  else
    ((signedUnits (signOf w) (magnitudeOf w) : WithTop Int) : WithBot (WithTop Int))

/-- The pattern of a finite number. -/
def pattern (x : Binary64) : UInt64 :=
  UInt64.ofNat x.bits

/-- The bits of a key: the zeros are made one, then the sign tells what is inverted. -/
def keyBits (w : UInt64) : UInt64 :=
  let v := if magnitudeOf w = 0 then 0 else w
  if v >>> 63 = 1 then ~~~v else v ^^^ 0x8000000000000000

/-- The first bit is set from 2^63 on. -/
theorem signOf_eq (w : UInt64) :
    signOf w = decide (signBit ≤ w.toNat) := by
  have hbound := w.toNat_lt
  have hshift : (w >>> 63).toNat = w.toNat / signBit := by
    rw [UInt64.toNat_shiftRight, Nat.shiftRight_eq_div_pow]
    rfl
  have hone : w >>> 63 = 1 ↔ w.toNat / signBit = 1 := by
    rw [← UInt64.toNat_inj, hshift]
    rfl
  unfold signOf
  rw [decide_eq_decide, hone]
  unfold signBit
  omega

theorem toNat_eq (w : UInt64) :
    w.toNat = (if signOf w then signBit else 0) + magnitudeOf w := by
  have hbound := w.toNat_lt
  rw [signOf_eq]
  unfold magnitudeOf signBit
  simp only [decide_eq_true_eq]
  split_ifs <;> omega

/-- Inverting the first bit adds 2^63 if it was not set. -/
theorem toNat_xor_signBit
    {w : UInt64}
    (h : w.toNat < signBit) :
    (w ^^^ 0x8000000000000000).toNat = signBit + w.toNat := by
  have hsplit := Nat.div_add_mod (w.toNat ^^^ 2 ^ 63) (2 ^ 63)
  have hsmall : w.toNat / 2 ^ 63 = 0 := Nat.div_eq_of_lt h
  have hrest : w.toNat % 2 ^ 63 = w.toNat := Nat.mod_eq_of_lt h
  rw [Nat.xor_div_two_pow, Nat.xor_mod_two_pow, hsmall, hrest, Nat.div_self (Nat.two_pow_pos 63),
    Nat.mod_self, Nat.zero_xor, Nat.xor_zero] at hsplit
  rw [UInt64.toNat_xor]
  exact hsplit.symm

/-- The bits of a key are the rank of the sign and the magnitude. -/
theorem toNat_keyBits (w : UInt64) :
    (keyBits w).toNat = rankOf (signOf w) (magnitudeOf w) := by
  have hnat := toNat_eq w
  have hbound := w.toNat_lt
  unfold keyBits rankOf
  dsimp only
  by_cases hzero : magnitudeOf w = 0
  · rw [if_pos hzero, if_pos hzero]
    rfl
  · rw [if_neg hzero, if_neg hzero]
    by_cases hsign : signOf w = true
    · have hbit : w >>> 63 = 1 := of_decide_eq_true hsign
      rw [if_pos hbit, if_pos hsign, UInt64.toNat_not]
      rw [if_pos hsign] at hnat
      unfold signBit at hnat ⊢
      unfold UInt64.size
      omega
    · have hbit : ¬ w >>> 63 = 1 := fun h => hsign (decide_eq_true h)
      rw [if_neg hsign, Nat.zero_add] at hnat
      have hlow : w.toNat < signBit := by
        rw [signOf_eq, decide_eq_true_eq] at hsign
        omega
      rw [if_neg hbit, if_neg hsign, toNat_xor_signBit hlow, hnat]

/-! ### The order of patterns -/

theorem unitsOf_pos_iff (m : Nat) :
    0 < unitsOf m ↔ 0 < m :=
  strictMono_unitsOf.lt_iff_lt (a := 0)

/-- Ranks of signs and magnitudes are ordered as the values that they stand for. -/
theorem rankOf_lt_rankOf_iff
    {s t : Bool}
    {m n : Nat}
    (hm : m ≤ limit)
    (hn : n ≤ limit) :
    rankOf s m < rankOf t n ↔ signedUnits s m < signedUnits t n := by
  have hmn : unitsOf m < unitsOf n ↔ m < n := strictMono_unitsOf.lt_iff_lt
  have hnm : unitsOf n < unitsOf m ↔ n < m := strictMono_unitsOf.lt_iff_lt
  have hmpos := unitsOf_pos_iff m
  have hnpos := unitsOf_pos_iff n
  have hlimit : limit < signBit := by decide
  unfold rankOf signedUnits
  cases s <;> cases t <;> simp only [Bool.false_eq_true, if_true, if_false] <;>
    split <;> split <;> omega

theorem numberOf_of_lt
    {w : UInt64}
    (h : magnitudeOf w < limit) :
    numberOf w = ((signedUnits (signOf w) (magnitudeOf w) : WithTop Int) : WithBot (WithTop Int)) :=
  if_neg h.ne

theorem numberOf_of_eq
    {w : UInt64}
    (h : magnitudeOf w = limit) :
    numberOf w = if signOf w then ⊥ else ((⊤ : WithTop Int) : WithBot (WithTop Int)) :=
  if_pos h

theorem signedUnits_lt_limit
    {m : Nat}
    (h : m < limit)
    (s : Bool) :
    signedUnits true limit < signedUnits s m ∧ signedUnits s m < signedUnits false limit := by
  have hm : unitsOf m < unitsOf limit := strictMono_unitsOf h
  unfold signedUnits
  cases s <;> simp only [Bool.false_eq_true, if_true, if_false] <;> omega

/-- The numbers of patterns are ordered as their values are, with those of the limit at the ends. -/
theorem numberOf_lt_numberOf_iff
    {v w : UInt64}
    (hv : IsNumber v)
    (hw : IsNumber w) :
    numberOf v < numberOf w ↔
      signedUnits (signOf v) (magnitudeOf v) < signedUnits (signOf w) (magnitudeOf w) := by
  have hends : signedUnits true limit < signedUnits false limit := by decide
  rcases Nat.lt_or_eq_of_le hv with hv | hv <;> rcases Nat.lt_or_eq_of_le hw with hw | hw
  · rw [numberOf_of_lt hv, numberOf_of_lt hw, WithBot.coe_lt_coe, WithTop.coe_lt_coe]
  · obtain ⟨hleast, hgreatest⟩ := signedUnits_lt_limit hv (signOf v)
    rw [numberOf_of_lt hv, numberOf_of_eq hw, hw]
    cases signOf w with
    | false =>
        exact iff_of_true (WithBot.coe_lt_coe.2 (WithTop.coe_lt_top _)) hgreatest
    | true =>
        exact iff_of_false not_lt_bot hleast.le.not_gt
  · obtain ⟨hleast, hgreatest⟩ := signedUnits_lt_limit hw (signOf w)
    rw [numberOf_of_eq hv, numberOf_of_lt hw, hv]
    cases signOf v with
    | false =>
        exact iff_of_false (fun h => not_top_lt (WithBot.coe_lt_coe.1 h)) hgreatest.le.not_gt
    | true =>
        exact iff_of_true (WithBot.bot_lt_coe _) hleast
  · rw [numberOf_of_eq hv, numberOf_of_eq hw, hv, hw]
    cases signOf v <;> cases signOf w <;> simp [hends, hends.le]

theorem rankOf_eq_rankOf_iff
    {v w : UInt64}
    (hv : IsNumber v)
    (hw : IsNumber w) :
    rankOf (signOf v) (magnitudeOf v) = rankOf (signOf w) (magnitudeOf w) ↔
      v = w ∨ magnitudeOf v = 0 ∧ magnitudeOf w = 0 := by
  have hlimit : limit < signBit := by decide
  unfold IsNumber at hv hw
  rw [← UInt64.toNat_inj, toNat_eq v, toNat_eq w]
  unfold rankOf
  cases signOf v <;> cases signOf w <;> simp only [Bool.false_eq_true, if_true, if_false] <;>
    split <;> split <;> omega

/-! ### Finite numbers -/

/-- The bits of a finite number are those of its pattern. -/
theorem toNat_pattern (x : Binary64) :
    x.pattern.toNat = x.bits := by
  have hfinite := x.finite
  unfold pattern
  rw [UInt64.toNat_ofNat']
  refine Nat.mod_eq_of_lt ?_
  unfold limit at hfinite
  unfold bits signBit
  split <;> omega

theorem magnitudeOf_pattern (x : Binary64) :
    magnitudeOf x.pattern = x.magnitude := by
  have hfinite := x.finite
  unfold magnitudeOf
  rw [toNat_pattern]
  unfold limit at hfinite
  unfold bits signBit
  split <;> omega

theorem signOf_pattern (x : Binary64) :
    signOf x.pattern = x.negative := by
  have hlimit : limit < signBit := by decide
  have hfinite := x.finite
  rw [signOf_eq, toNat_pattern]
  unfold bits
  cases x.negative with
  | false =>
      simp only [Bool.false_eq_true, if_false, decide_eq_false_iff_not]
      omega
  | true =>
      simp

theorem numberOf_pattern (x : Binary64) :
    numberOf x.pattern = ((x.units : WithTop Int) : WithBot (WithTop Int)) := by
  have hfinite : magnitudeOf x.pattern < limit := by
    rw [magnitudeOf_pattern]
    exact x.finite
  rw [numberOf_of_lt hfinite, magnitudeOf_pattern, signOf_pattern, units]

theorem toNat_keyBits_pattern (x : Binary64) :
    (keyBits x.pattern).toNat = x.rank := by
  rw [toNat_keyBits, signOf_pattern, magnitudeOf_pattern, rank]

end Binary64

namespace KeyValue

open Binary64

/--
Over all bit patterns that stand for numbers, the keys are ordered as the
numbers are, and only the two zeros share one.  The keys in an index are these
keys of finite numbers.  Of two integers the larger one never has the smaller
key.
-/
theorem keys_are_ordered_as_numbers :
    (∀ w : UInt64, (keyBits w).toNat = rankOf (signOf w) (magnitudeOf w)) ∧
    (∀ v w : UInt64, IsNumber v → IsNumber w →
      (keyBits v < keyBits w ↔ numberOf v < numberOf w) ∧
      (keyBits v = keyBits w ↔ numberOf v = numberOf w) ∧
      (keyBits v = keyBits w ↔ v = w ∨ magnitudeOf v = 0 ∧ magnitudeOf w = 0)) ∧
    (∀ x : Binary64,
      IsNumber x.pattern ∧
      numberOf x.pattern = ((x.units : WithTop Int) : WithBot (WithTop Int)) ∧
      ofJson? (.number (.float x)) = some (number (keyBits x.pattern).toNat)) ∧
    (∀ i j : Int, i ≤ j →
      ∃ k l, ofJson? (.number (.integer i)) = some k ∧ ofJson? (.number (.integer j)) = some l ∧
        (k.order l).isLE = true) := by
  refine ⟨toNat_keyBits, fun v w hv hw => ?_, fun x => ?_, fun i j hij => ?_⟩
  · have hlt : ∀ {a b : UInt64}, IsNumber a → IsNumber b →
        (keyBits a < keyBits b ↔ numberOf a < numberOf b) := by
      intro a b ha hb
      rw [numberOf_lt_numberOf_iff ha hb, ← rankOf_lt_rankOf_iff ha hb, UInt64.lt_iff_toNat_lt,
        toNat_keyBits, toNat_keyBits]
    have heq : keyBits v = keyBits w ↔ numberOf v = numberOf w := by
      have hvw := hlt hv hw
      have hwv := hlt hw hv
      constructor
      · intro h
        rw [h] at hvw hwv
        exact le_antisymm (not_lt.1 fun hgt => UInt64.lt_irrefl _ (hwv.2 hgt))
          (not_lt.1 fun hlt => UInt64.lt_irrefl _ (hvw.2 hlt))
      · intro h
        rw [h] at hvw hwv
        have hle : ¬ keyBits v < keyBits w := fun hlt => lt_irrefl _ (hvw.1 hlt)
        have hge : ¬ keyBits w < keyBits v := fun hgt => lt_irrefl _ (hwv.1 hgt)
        exact UInt64.le_antisymm (UInt64.not_lt.1 hge) (UInt64.not_lt.1 hle)
    have hzeros : keyBits v = keyBits w ↔ v = w ∨ magnitudeOf v = 0 ∧ magnitudeOf w = 0 := by
      rw [← UInt64.toNat_inj, toNat_keyBits, toNat_keyBits, rankOf_eq_rankOf_iff hv hw]
    exact ⟨hlt hv hw, heq, hzeros⟩
  · have hnumber : magnitudeOf x.pattern ≤ limit := by
      rw [magnitudeOf_pattern]
      exact x.finite.le
    exact ⟨hnumber, numberOf_pattern x, by rw [toNat_keyBits_pattern]; rfl⟩
  · refine ⟨_, _, rfl, rfl, ?_⟩
    exact Nat.isLE_compare.2 (rank_ofInt_mono hij)

/--
The key of the least finite number is below that of the infinity, and that of
2^53 is not above that of the integer after it, which is rounded.
-/
theorem leastNumber_key_below_infinity :
    IsNumber 0xFFEFFFFFFFFFFFFF ∧ IsNumber 0x7FF0000000000000 ∧
      keyBits 0xFFEFFFFFFFFFFFFF < keyBits 0x7FF0000000000000 ∧
      (0x20000000000000 : Int) ≤ 0x20000000000001 ∧
      ∃ k l, ofJson? (.number (.integer 0x20000000000000)) = some k ∧
        ofJson? (.number (.integer 0x20000000000001)) = some l ∧ (k.order l).isLE = true := by
  obtain ⟨-, hpatterns, -, hintegers⟩ := keys_are_ordered_as_numbers
  have hleast : IsNumber 0xFFEFFFFFFFFFFFFF := by decide
  have hinfinity : IsNumber 0x7FF0000000000000 := by decide
  obtain ⟨hlt, -, -⟩ := hpatterns _ _ hleast hinfinity
  exact ⟨hleast, hinfinity, hlt.2 (by decide), by decide, hintegers _ _ (by decide)⟩

end KeyValue
end DocumentStore
