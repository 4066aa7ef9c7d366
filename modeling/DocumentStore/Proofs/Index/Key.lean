import DocumentStore.Index.Key

/-!
# Laws of the order of keys

Key values are in a total order.  The order of parts looks at the direction of
the first part only, so it is one for parts of one direction; here it is
extended to all parts, with the ascending ones first.  Keys whose directions
agree position by position are then compared lexicographically, and the laws
of lexicographic orders hold for them.
-/

namespace DocumentStore

namespace KeyValue

instance : Ord KeyValue := ⟨order⟩

theorem order_eq_compare (a b : KeyValue) :
    a.order b = compare a b :=
  rfl

instance : Std.OrientedOrd KeyValue where
  eq_swap {a b} := by
    change a.order b = (b.order a).swap
    cases a <;> cases b <;> simp only [order] <;> exact Std.OrientedOrd.eq_swap

instance : Std.TransOrd KeyValue where
  isLE_trans {a b c} hab hbc := by
    change (a.order b).isLE = true at hab
    change (b.order c).isLE = true at hbc
    change (a.order c).isLE = true
    cases a <;> cases b <;> cases c <;> simp only [order, kind] at hab hbc ⊢ <;>
      first
        | exact Std.TransOrd.isLE_trans hab hbc
        | exact absurd hab (by decide)
        | exact absurd hbc (by decide)
        | rfl

instance : Std.LawfulEqOrd KeyValue where
  compare_self {a} := by
    change a.order a = .eq
    cases a <;> simp [order]
  eq_of_compare {a b} h := by
    change a.order b = .eq at h
    cases a <;> cases b <;> simp only [order, kind] at h <;>
      first
        | rw [Std.LawfulEqOrd.eq_of_compare h]
        | exact absurd h (by decide)
        | rfl

end KeyValue

namespace KeyPart

/-- The order of parts of one direction, with the ascending parts before the descending ones. -/
def orderAll : KeyPart → KeyPart → Ordering
  | ⟨a, .asc⟩, ⟨b, .asc⟩ => compare a b
  | ⟨_, .asc⟩, ⟨_, .desc⟩ => .lt
  | ⟨_, .desc⟩, ⟨_, .asc⟩ => .gt
  | ⟨a, .desc⟩, ⟨b, .desc⟩ => compare b a

instance : Ord KeyPart := ⟨orderAll⟩

theorem order_eq_compare
    {a b : KeyPart}
    (h : a.direction = b.direction) :
    a.order b = compare a b := by
  obtain ⟨v, d⟩ := a
  obtain ⟨w, d'⟩ := b
  cases h
  cases d with
  | asc =>
      rfl
  | desc =>
      change (v.order w).swap = compare w v
      rw [KeyValue.order_eq_compare, ← Std.OrientedOrd.eq_swap]

instance : Std.OrientedOrd KeyPart where
  eq_swap {a b} := by
    change a.orderAll b = (b.orderAll a).swap
    obtain ⟨v, d⟩ := a
    obtain ⟨w, d'⟩ := b
    cases d <;> cases d' <;> simp only [orderAll, Ordering.swap_lt, Ordering.swap_gt] <;>
      exact Std.OrientedOrd.eq_swap

instance : Std.TransOrd KeyPart where
  isLE_trans {a b c} hab hbc := by
    change (a.orderAll b).isLE = true at hab
    change (b.orderAll c).isLE = true at hbc
    change (a.orderAll c).isLE = true
    obtain ⟨u, d⟩ := a
    obtain ⟨v, d'⟩ := b
    obtain ⟨w, d''⟩ := c
    cases d <;> cases d' <;> cases d'' <;> simp only [orderAll] at hab hbc ⊢ <;>
      first
        | exact Std.TransOrd.isLE_trans hab hbc
        | exact Std.TransOrd.isLE_trans hbc hab
        | exact absurd hab (by decide)
        | exact absurd hbc (by decide)
        | rfl

instance : Std.LawfulEqOrd KeyPart where
  compare_self {a} := by
    change a.orderAll a = .eq
    obtain ⟨v, d⟩ := a
    cases d <;> exact Std.ReflOrd.compare_self
  eq_of_compare {a b} h := by
    change a.orderAll b = .eq at h
    obtain ⟨v, d⟩ := a
    obtain ⟨w, d'⟩ := b
    cases d <;> cases d' <;> simp only [orderAll] at h <;>
      first
        | rw [Std.LawfulEqOrd.eq_of_compare h]
        | exact absurd h (by decide)

end KeyPart

namespace Key

/-- The part at each position of a key has the direction of that position. -/
def Follows
    (direction : Nat → Direction)
    (key : Key) :
    Prop :=
  ∀ (position : Nat) (part : KeyPart), key[position]? = some part →
    part.direction = direction position

theorem Follows.nil (direction : Nat → Direction) :
    Follows direction [] := by
  intro position part h
  cases h

/-- A first part and the parts after it. -/
theorem follows_cons
    {direction : Nat → Direction}
    {part : KeyPart}
    {rest : Key} :
    Follows direction (part :: rest) ↔
      part.direction = direction 0 ∧ Follows (fun i => direction (i + 1)) rest := by
  constructor
  · intro h
    exact ⟨h 0 part rfl, fun position p hp => h (position + 1) p hp⟩
  · rintro ⟨hpart, hrest⟩ position p hp
    cases position with
    | zero =>
        cases hp
        exact hpart
    | succ position =>
        exact hrest position p hp

theorem Follows.append
    {direction : Nat → Direction}
    {start rest : Key}
    (hstart : Follows direction start)
    (hrest : Follows (fun i => direction (start.length + i)) rest) :
    Follows direction (start ++ rest) := by
  induction start generalizing direction with
  | nil =>
      simpa using hrest
  | cons part start ih =>
      obtain ⟨hpart, hstart⟩ := follows_cons.1 hstart
      refine follows_cons.2 ⟨hpart, ih hstart ?_⟩
      simpa only [List.length_cons, Nat.add_right_comm, Nat.add_assoc, Nat.add_comm 1] using hrest

/-- Keys in the same directions are ordered by their lexicographic comparison. -/
theorem order_eq_compare
    {direction : Nat → Direction}
    {a b : Key}
    (ha : Follows direction a)
    (hb : Follows direction b) :
    a.order b = compare a b := by
  induction a generalizing b direction with
  | nil =>
      cases b <;> rfl
  | cons p as ih =>
      cases b with
      | nil =>
          rfl
      | cons q bs =>
          obtain ⟨hp, has⟩ := follows_cons.1 ha
          obtain ⟨hq, hbs⟩ := follows_cons.1 hb
          rw [order, KeyPart.order_eq_compare (hp.trans hq.symm), ih has hbs]
          exact (List.compare_cons_cons ..).symm

end Key
end DocumentStore
