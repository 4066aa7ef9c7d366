import DocumentStore.Access.Condition.Token
import DocumentStore.Proofs.Binary64.Nearest
import DocumentStore.Proofs.Text
import Mathlib.Data.List.Induction
import Mathlib.Data.List.TakeDrop
import Mathlib.Data.List.TakeWhile

/-!
# Numbers in conditions

A run of digits is an integer, and a run of digits with a point among them is a
decimal, which stands for the binary64 number nearest to it.  Too large a number
and a run with a second point spell nothing.  What a run spells is said here
without the functions that read it, and these are shown to agree.
-/

namespace DocumentStore
namespace Condition

/-- Decimal digits, and the number that they write. -/
inductive Numeral : List Char → Nat → Prop
  | nil :
      Numeral [] 0
  | digit {cs : List Char} {n d : Nat}
      (h : Numeral cs n)
      (hd : d < 10) :
      Numeral (cs ++ [Nat.digitChar d]) (10 * n + d)

/--
The number that a run of digits and points spells, if any: an integer below 2^63, or
the number nearest to a decimal, if that is finite.  As many powers of ten are taken
off the digits of a decimal as stand behind its point.
-/
inductive Spells : List Char → Option Json.Number → Prop
  | integer {cs : List Char} {n : Nat}
      (h : Numeral cs n)
      (hbound : n < 2 ^ 63) :
      Spells cs (some (.integer n))
  | hugeInteger {cs : List Char} {n : Nat}
      (h : Numeral cs n)
      (hbound : 2 ^ 63 ≤ n) :
      Spells cs none
  | decimal {whole fraction : List Char} {n : Nat} {x : Binary64}
      (h : Numeral (whole ++ fraction) n)
      (hsign : x.negative = false)
      (hnearest : Binary64.Nearest (n * Binary64.one) (10 ^ fraction.length) x.magnitude) :
      Spells (whole ++ '.' :: fraction) (some (.float x))
  | hugeDecimal {whole fraction : List Char} {n m : Nat}
      (h : Numeral (whole ++ fraction) n)
      (hlimit : Binary64.limit ≤ m)
      (hnearest : Binary64.Nearest (n * Binary64.one) (10 ^ fraction.length) m) :
      Spells (whole ++ '.' :: fraction) none
  | points {whole rest : List Char} {n : Nat}
      (h : Numeral whole n)
      (hpoint : '.' ∈ rest) :
      Spells (whole ++ '.' :: rest) none

/-! ### Digits -/

theorem toNat_of_isDigit
    {c : Char}
    (h : c.isDigit = true) :
    0x30 ≤ c.toNat ∧ c.toNat ≤ 0x39 := by
  have hbounds : (decide ('0'.val ≤ c.val) && decide (c.val ≤ '9'.val)) = true := h
  rw [Bool.and_eq_true, decide_eq_true_eq, decide_eq_true_eq] at hbounds
  exact ⟨UInt32.le_iff_toNat_le.1 hbounds.1, UInt32.le_iff_toNat_le.1 hbounds.2⟩

theorem isDigit_iff_exists_digitChar
    {c : Char} :
    c.isDigit = true ↔ ∃ d < 10, c = Nat.digitChar d := by
  constructor
  · intro h
    have hbounds := toNat_of_isDigit h
    have hcode : ∀ d < 10, (Nat.digitChar d).toNat = 0x30 + d := by decide
    refine ⟨c.toNat - 0x30, by omega, Char.toNat_inj.1 ?_⟩
    rw [hcode _ (by omega)]
    omega
  · rintro ⟨d, hd, rfl⟩
    revert d
    decide

section Numerals

variable {cs ds : List Char} {n m : Nat}

theorem Numeral.isDigit
    (h : Numeral cs n) :
    ∀ c ∈ cs, c.isDigit = true := by
  induction h with
  | nil =>
      nofun
  | digit h hd ih =>
      exact List.forall_mem_append.2
        ⟨ih, List.forall_mem_singleton.2 (isDigit_iff_exists_digitChar.2 ⟨_, hd, rfl⟩)⟩

theorem Numeral.digitsValue_eq
    (h : Numeral cs n) :
    Text.digitsValue 10 cs = n := by
  induction h with
  | nil =>
      rfl
  | digit h hd ih =>
      rw [Text.digitsValue_append_digit _ hd, ih, Nat.mul_comm]

theorem numeral_of_isDigit
    (h : ∀ c ∈ cs, c.isDigit = true) :
    Numeral cs (Text.digitsValue 10 cs) := by
  induction cs using List.reverseRecOn with
  | nil =>
      exact .nil
  | append_singleton cs c ih =>
      rw [List.forall_mem_append, List.forall_mem_singleton] at h
      obtain ⟨d, hd, rfl⟩ := isDigit_iff_exists_digitChar.1 h.2
      rw [Text.digitsValue_append_digit _ hd, Nat.mul_comm]
      exact .digit (ih h.1) hd

end Numerals

/-! ### Runs of digits and points -/

section Runs

variable {cs whole fraction : List Char} {n : Option Json.Number}

theorem numberOf?_of_isDigit
    (h : ∀ c ∈ cs, c.isDigit = true) :
    numberOf? cs =
      if Text.digitsValue 10 cs < 2 ^ 63 then some (.integer (Text.digitsValue 10 cs))
      else none := by
  have hspan : cs.span Char.isDigit = (cs, []) := by
    rw [List.span_eq_takeWhile_dropWhile, List.takeWhile_eq_self_iff.2 h,
      List.dropWhile_eq_nil_iff.2 h]
  have hsigned : Json.Signed64 (Text.digitsValue 10 cs) ↔ Text.digitsValue 10 cs < 2 ^ 63 := by
    unfold Json.Signed64
    omega
  unfold numberOf?
  rw [hspan]
  exact if_congr hsigned rfl rfl

theorem numberOf?_append_point
    (h : ∀ c ∈ whole, c.isDigit = true)
    (fraction : List Char) :
    numberOf? (whole ++ '.' :: fraction) =
      if fraction.all Char.isDigit then
        (Binary64.ofDecimal? false (Text.digitsValue 10 (whole ++ fraction))
          (-fraction.length)).map .float
      else none := by
  have hpoint : ¬ Char.isDigit '.' = true := by decide
  have hspan : (whole ++ '.' :: fraction).span Char.isDigit = (whole, '.' :: fraction) := by
    rw [List.span_eq_takeWhile_dropWhile, List.takeWhile_append_of_pos h,
      List.dropWhile_append_of_pos h, List.takeWhile_cons_of_neg hpoint,
      List.dropWhile_cons_of_neg hpoint, List.append_nil]
  unfold numberOf?
  rw [hspan]

/-- What a run spells is what is read. -/
theorem Spells.numberOf?_eq
    (h : Spells cs n) :
    numberOf? cs = n := by
  cases h with
  | integer h hbound =>
      rw [numberOf?_of_isDigit h.isDigit, h.digitsValue_eq, if_pos hbound]
  | hugeInteger h hbound =>
      rw [numberOf?_of_isDigit h.isDigit, h.digitsValue_eq, if_neg (Nat.not_lt.2 hbound)]
  | @decimal whole fraction n x h hsign hnearest =>
      obtain ⟨hwhole, hfraction⟩ := List.forall_mem_append.1 h.isDigit
      rw [numberOf?_append_point hwhole, if_pos (List.all_eq_true.2 hfraction), h.digitsValue_eq,
        (Binary64.ofDecimal?_eq_some_iff _ _).2 ⟨hsign, hnearest⟩, Option.map_some]
  | @hugeDecimal whole fraction n m h hlimit hnearest =>
      obtain ⟨hwhole, hfraction⟩ := List.forall_mem_append.1 h.isDigit
      rw [numberOf?_append_point hwhole, if_pos (List.all_eq_true.2 hfraction), h.digitsValue_eq,
        (Binary64.ofDecimal?_eq_none_iff _ _).2 ⟨m, hlimit, hnearest⟩, Option.map_none]
  | @points whole rest n h hpoint =>
      rw [numberOf?_append_point h.isDigit, if_neg]
      intro hall
      exact absurd (List.all_eq_true.1 hall _ hpoint) (by decide)

/-- What is read of a run of digits and points is what it spells. -/
theorem spells_numberOf?
    (h : ∀ c ∈ cs, c.isDigit = true ∨ c = '.') :
    Spells cs (numberOf? cs) := by
  by_cases hpoint : '.' ∈ cs
  · obtain ⟨whole, rest, rfl, hfirst⟩ := List.eq_append_cons_of_mem hpoint
    have hwhole : ∀ c ∈ whole, c.isDigit = true := fun c hc =>
      (h c (List.mem_append_left _ hc)).resolve_right fun heq => hfirst (heq ▸ hc)
    rw [numberOf?_append_point hwhole]
    split_ifs with hrest
    · have hnumeral := numeral_of_isDigit
        (List.forall_mem_append.2 ⟨hwhole, List.all_eq_true.1 hrest⟩)
      cases hx : Binary64.ofDecimal? false (Text.digitsValue 10 (whole ++ rest)) (-rest.length) with
      | some x =>
          obtain ⟨hsign, hnearest⟩ := (Binary64.ofDecimal?_eq_some_iff _ _).1 hx
          exact .decimal hnumeral hsign hnearest
      | none =>
          obtain ⟨m, hlimit, hnearest⟩ := (Binary64.ofDecimal?_eq_none_iff _ _).1 hx
          exact .hugeDecimal hnumeral hlimit hnearest
    · refine .points (numeral_of_isDigit hwhole) ?_
      by_contra hsecond
      refine hrest (List.all_eq_true.2 fun c hc => ?_)
      exact (h c (List.mem_append_right _ (List.mem_cons_of_mem _ hc))).resolve_right
        fun heq => hsecond (heq ▸ hc)
  · have hdigits : ∀ c ∈ cs, c.isDigit = true := fun c hc =>
      (h c hc).resolve_right fun heq => hpoint (heq ▸ hc)
    rw [numberOf?_of_isDigit hdigits]
    split_ifs with hbound
    · exact .integer (numeral_of_isDigit hdigits) hbound
    · exact .hugeInteger (numeral_of_isDigit hdigits) (Nat.not_lt.1 hbound)

end Runs

end Condition
end DocumentStore
