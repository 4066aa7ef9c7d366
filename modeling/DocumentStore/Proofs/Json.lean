import DocumentStore.Json.Basic

/-!
# Values of the same structure

Two values match when they have the same structure, the same names, strings and
truth values, and related numbers at corresponding places.  One relation applies
to the numbers within objects and one to those elsewhere, since equality in
conditions tells the two apart.  Matching passes from relation to relation as
long as the numbers at hand do, and it is symmetric and transitive if the
relations are.
-/

namespace DocumentStore
namespace Json

/-! ### Numbers -/

namespace Number

/-- Equal in value. -/
def Equal (m n : Number) : Prop :=
  m.order n = .eq

/-- Equal in value and written alike: both as integers, or both as binary64 numbers. -/
def Identical (m n : Number) : Prop :=
  m.same n = true

instance (m n : Number) : Decidable (m.Equal n) :=
  inferInstanceAs (Decidable (m.order n = .eq))

instance (m n : Number) : Decidable (m.Identical n) :=
  inferInstanceAs (Decidable (m.same n = true))

variable {l m n : Number}

theorem equal_iff :
    m.Equal n ↔ m.toBinary64.units = n.toBinary64.units := by
  rw [Equal, order, Binary64.order]
  exact Std.LawfulEqCmp.compare_eq_iff_eq

theorem Equal.symm
    (h : m.Equal n) :
    n.Equal m :=
  equal_iff.2 (equal_iff.1 h).symm

theorem Equal.trans
    (h : l.Equal m)
    (h' : m.Equal n) :
    l.Equal n :=
  equal_iff.2 ((equal_iff.1 h).trans (equal_iff.1 h'))

/-- Integers are identical if they are the same, and so are binary64 numbers if they are equal. -/
theorem identical_iff :
    m.Identical n ↔
      (∃ i, m = integer i ∧ n = integer i) ∨
        ∃ x y, m = float x ∧ n = float y ∧ m.Equal n := by
  cases m with
  | integer i =>
      cases n with
      | integer j =>
          have hsame : (integer i).Identical (integer j) ↔ i = j := beq_iff_eq
          simp [hsame, eq_comm]
      | float y =>
          simp [Identical, same]
  | float x =>
      cases n with
      | integer j =>
          simp [Identical, same]
      | float y =>
          have hsame : (float x).Identical (float y) ↔ (float x).Equal (float y) := beq_iff_eq
          simp [hsame]

theorem Identical.equal
    (h : m.Identical n) :
    m.Equal n := by
  rcases identical_iff.1 h with ⟨i, rfl, rfl⟩ | ⟨x, y, -, -, hequal⟩
  · exact equal_iff.2 rfl
  · exact hequal

theorem Identical.symm
    (h : m.Identical n) :
    n.Identical m := by
  rcases identical_iff.1 h with ⟨i, rfl, rfl⟩ | ⟨x, y, hm, hn, hequal⟩
  · exact h
  · exact identical_iff.2 (.inr ⟨y, x, hn, hm, hequal.symm⟩)

theorem Identical.trans
    (h : l.Identical m)
    (h' : m.Identical n) :
    l.Identical n := by
  rcases identical_iff.1 h with ⟨i, rfl, rfl⟩ | ⟨x, y, hl, hm, hequal⟩
  · exact h'
  · rcases identical_iff.1 h' with ⟨i, hi, -⟩ | ⟨y', z, -, hn, hequal'⟩
    · rw [hm] at hi
      cases hi
    · exact identical_iff.2 (.inr ⟨x, z, hl, hn, hequal.trans hequal'⟩)

end Number

/-! ### Matching -/

mutual

/-- The numbers outside of objects. -/
def freeNumbers : Json → List Number
  | number n => [n]
  | array items => freeNumbersOfItems items
  | _ => []

/-- The numbers of items outside of objects. -/
def freeNumbersOfItems : List Json → List Number
  | [] => []
  | item :: rest => freeNumbers item ++ freeNumbersOfItems rest

end

mutual

/-- The numbers within objects. -/
def objectNumbers : Json → List Number
  | array items => objectNumbersOfItems items
  | object members => numbersOfMembers members
  | _ => []

/-- The numbers within objects among items. -/
def objectNumbersOfItems : List Json → List Number
  | [] => []
  | item :: rest => objectNumbers item ++ objectNumbersOfItems rest

/-- All numbers of members. -/
def numbersOfMembers : List (String × Json) → List Number
  | [] => []
  | (_, value) :: rest => freeNumbers value ++ objectNumbers value ++ numbersOfMembers rest

end

/-- The numbers within objects of an item are among those of the items. -/
theorem mem_objectNumbersOfItems
    {items : List Json}
    {item : Json}
    (hitem : item ∈ items)
    {n : Number}
    (hn : n ∈ item.objectNumbers) :
    n ∈ objectNumbersOfItems items := by
  induction items with
  | nil =>
      cases hitem
  | cons first rest ih =>
      rcases List.mem_cons.1 hitem with rfl | hrest
      · exact List.mem_append_left _ hn
      · exact List.mem_append_right _ (ih hrest)

mutual

/--
The same structure, with related numbers at corresponding places: by `inner`
within objects, and by `outer` elsewhere.
-/
inductive Matches (inner : Number → Number → Prop) :
    (outer : Number → Number → Prop) → Json → Json → Prop
  | null
      {outer : Number → Number → Prop} :
      Matches inner outer .null .null
  | bool
      {outer : Number → Number → Prop}
      (b : Bool) :
      Matches inner outer (.bool b) (.bool b)
  | number
      {outer : Number → Number → Prop}
      {m n : Number}
      (h : outer m n) :
      Matches inner outer (.number m) (.number n)
  | string
      {outer : Number → Number → Prop}
      (s : String) :
      Matches inner outer (.string s) (.string s)
  | array
      {outer : Number → Number → Prop}
      {as bs : List Json}
      (h : MatchesItems inner outer as bs) :
      Matches inner outer (.array as) (.array bs)
  | object
      {outer : Number → Number → Prop}
      {as bs : List (String × Json)}
      (h : MatchesMembers inner as bs) :
      Matches inner outer (.object as) (.object bs)

/-- Lists of values that match item by item. -/
inductive MatchesItems (inner : Number → Number → Prop) :
    (outer : Number → Number → Prop) → List Json → List Json → Prop
  | nil
      {outer : Number → Number → Prop} :
      MatchesItems inner outer [] []
  | cons
      {outer : Number → Number → Prop}
      {a b : Json}
      {as bs : List Json}
      (h : Matches inner outer a b)
      (hs : MatchesItems inner outer as bs) :
      MatchesItems inner outer (a :: as) (b :: bs)

/-- Members of the same names whose values match, with all numbers within an object. -/
inductive MatchesMembers (inner : Number → Number → Prop) :
    List (String × Json) → List (String × Json) → Prop
  | nil :
      MatchesMembers inner [] []
  | cons
      {name : String}
      {a b : Json}
      {as bs : List (String × Json)}
      (h : Matches inner inner a b)
      (hs : MatchesMembers inner as bs) :
      MatchesMembers inner ((name, a) :: as) ((name, b) :: bs)

end

/-- The same structure, with equal numbers at corresponding places, however they are written. -/
def Alike (a b : Json) : Prop :=
  Matches Number.Equal Number.Equal a b

variable {inner inner' : Number → Number → Prop}

mutual

theorem Matches.symm
    (hinner : ∀ m n, inner m n → inner n m) :
    {outer : Number → Number → Prop} →
    (∀ m n, outer m n → outer n m) →
    {a b : Json} →
    Matches inner outer a b → Matches inner outer b a
  | _, _, _, _, .null => .null
  | _, _, _, _, .bool b => .bool b
  | _, houter, _, _, .number h => .number (houter _ _ h)
  | _, _, _, _, .string s => .string s
  | _, houter, _, _, .array h => .array (h.symm hinner houter)
  | _, _, _, _, .object h => .object (h.symm hinner)

theorem MatchesItems.symm
    (hinner : ∀ m n, inner m n → inner n m) :
    {outer : Number → Number → Prop} →
    (∀ m n, outer m n → outer n m) →
    {as bs : List Json} →
    MatchesItems inner outer as bs → MatchesItems inner outer bs as
  | _, _, _, _, .nil => .nil
  | _, houter, _, _, .cons h hs => .cons (h.symm hinner houter) (hs.symm hinner houter)

theorem MatchesMembers.symm
    (hinner : ∀ m n, inner m n → inner n m) :
    {as bs : List (String × Json)} →
    MatchesMembers inner as bs → MatchesMembers inner bs as
  | _, _, .nil => .nil
  | _, _, .cons h hs => .cons (h.symm hinner hinner) (hs.symm hinner)

end

mutual

theorem Matches.trans
    (hinner : ∀ l m n, inner l m → inner m n → inner l n) :
    {outer : Number → Number → Prop} →
    (∀ l m n, outer l m → outer m n → outer l n) →
    {a b c : Json} →
    Matches inner outer a b → Matches inner outer b c → Matches inner outer a c
  | _, _, _, _, _, .null, .null => .null
  | _, _, _, _, _, .bool b, .bool _ => .bool b
  | _, houter, _, _, _, .number h, .number h' => .number (houter _ _ _ h h')
  | _, _, _, _, _, .string s, .string _ => .string s
  | _, houter, _, _, _, .array h, .array h' => .array (h.trans hinner houter h')
  | _, _, _, _, _, .object h, .object h' => .object (h.trans hinner h')

theorem MatchesItems.trans
    (hinner : ∀ l m n, inner l m → inner m n → inner l n) :
    {outer : Number → Number → Prop} →
    (∀ l m n, outer l m → outer m n → outer l n) →
    {as bs cs : List Json} →
    MatchesItems inner outer as bs → MatchesItems inner outer bs cs →
    MatchesItems inner outer as cs
  | _, _, _, _, _, .nil, .nil => .nil
  | _, houter, _, _, _, .cons h hs, .cons h' hs' =>
      .cons (h.trans hinner houter h') (hs.trans hinner houter hs')

theorem MatchesMembers.trans
    (hinner : ∀ l m n, inner l m → inner m n → inner l n) :
    {as bs cs : List (String × Json)} →
    MatchesMembers inner as bs → MatchesMembers inner bs cs → MatchesMembers inner as cs
  | _, _, _, .nil, .nil => .nil
  | _, _, _, .cons h hs, .cons h' hs' => .cons (h.trans hinner hinner h') (hs.trans hinner hs')

end

mutual

/-- Values match by other relations too if these follow for the numbers that the values have. -/
theorem Matches.imp :
    {outer outer' : Number → Number → Prop} →
    {a b : Json} →
    Matches inner outer a b →
    (∀ m ∈ a.freeNumbers, ∀ n ∈ b.freeNumbers, outer m n → outer' m n) →
    (∀ m ∈ a.objectNumbers, ∀ n ∈ b.objectNumbers, inner m n → inner' m n) →
    Matches inner' outer' a b
  | _, _, _, _, .null, _, _ => .null
  | _, _, _, _, .bool b, _, _ => .bool b
  | _, _, _, _, .number h, houter, _ =>
      .number (houter _ List.mem_cons_self _ List.mem_cons_self h)
  | _, _, _, _, .string s, _, _ => .string s
  | _, _, _, _, .array h, houter, hinner => .array (h.imp houter hinner)
  | _, _, _, _, .object h, _, hinner => .object (h.imp hinner)

theorem MatchesItems.imp :
    {outer outer' : Number → Number → Prop} →
    {as bs : List Json} →
    MatchesItems inner outer as bs →
    (∀ m ∈ freeNumbersOfItems as, ∀ n ∈ freeNumbersOfItems bs, outer m n → outer' m n) →
    (∀ m ∈ objectNumbersOfItems as, ∀ n ∈ objectNumbersOfItems bs, inner m n → inner' m n) →
    MatchesItems inner' outer' as bs
  | _, _, _, _, .nil, _, _ => .nil
  | _, _, _, _, .cons h hs, houter, hinner =>
      .cons
        (h.imp
          (fun m hm n hn => houter m (List.mem_append_left _ hm) n (List.mem_append_left _ hn))
          (fun m hm n hn => hinner m (List.mem_append_left _ hm) n (List.mem_append_left _ hn)))
        (hs.imp
          (fun m hm n hn => houter m (List.mem_append_right _ hm) n (List.mem_append_right _ hn))
          (fun m hm n hn => hinner m (List.mem_append_right _ hm) n (List.mem_append_right _ hn)))

theorem MatchesMembers.imp :
    {as bs : List (String × Json)} →
    MatchesMembers inner as bs →
    (∀ m ∈ numbersOfMembers as, ∀ n ∈ numbersOfMembers bs, inner m n → inner' m n) →
    MatchesMembers inner' as bs
  | _, _, .nil, _ => .nil
  | _, _, .cons h hs, hinner =>
      .cons
        (h.imp
          (fun m hm n hn => hinner m (List.mem_append_left _ (List.mem_append_left _ hm)) n
            (List.mem_append_left _ (List.mem_append_left _ hn)))
          (fun m hm n hn => hinner m (List.mem_append_left _ (List.mem_append_right _ hm)) n
            (List.mem_append_left _ (List.mem_append_right _ hn))))
        (hs.imp
          (fun m hm n hn => hinner m (List.mem_append_right _ hm) n (List.mem_append_right _ hn)))

end

/-! ### Equality of values -/

mutual

/-- Values that are the same match with identical numbers. -/
theorem Matches.of_same :
    {a b : Json} → a.same b = true → Matches Number.Identical Number.Identical a b
  | .null, b, h => by
      cases b with
      | null => exact .null
      | _ => cases h
  | .bool x, b, h => by
      cases b with
      | bool y =>
          obtain rfl : x = y := beq_iff_eq.1 h
          exact .bool x
      | _ => cases h
  | .number m, b, h => by
      cases b with
      | number n => exact .number h
      | _ => cases h
  | .string s, b, h => by
      cases b with
      | string t =>
          obtain rfl : s = t := beq_iff_eq.1 h
          exact .string s
      | _ => cases h
  | .array as, b, h => by
      cases b with
      | array bs => exact .array (MatchesItems.of_same h)
      | _ => cases h
  | .object as, b, h => by
      cases b with
      | object bs => exact .object (MatchesMembers.of_same h)
      | _ => cases h

theorem MatchesItems.of_same :
    {as bs : List Json} → sameItems as bs = true →
      MatchesItems Number.Identical Number.Identical as bs
  | [], [], _ => .nil
  | a :: as, b :: bs, h => by
      rw [sameItems, Bool.and_eq_true] at h
      exact .cons (Matches.of_same h.1) (MatchesItems.of_same h.2)

theorem MatchesMembers.of_same :
    {as bs : List (String × Json)} → sameMembers as bs = true →
      MatchesMembers Number.Identical as bs
  | [], [], _ => .nil
  | (k, a) :: as, (l, b) :: bs, h => by
      rw [sameMembers, Bool.and_eq_true, Bool.and_eq_true, beq_iff_eq] at h
      obtain ⟨⟨rfl, h⟩, hs⟩ := h
      exact .cons (Matches.of_same h) (MatchesMembers.of_same hs)

end

mutual

/-- Values that match with identical numbers are the same. -/
theorem Matches.same :
    {outer : Number → Number → Prop} →
    (∀ m n, outer m n → m.Identical n) →
    {a b : Json} →
    Matches Number.Identical outer a b → a.same b = true
  | _, _, _, _, .null => rfl
  | _, _, _, _, .bool b => beq_self_eq_true b
  | _, houter, _, _, .number h => houter _ _ h
  | _, _, _, _, .string s => beq_self_eq_true s
  | _, houter, _, _, .array h => h.same houter
  | _, _, _, _, .object h => h.same

theorem MatchesItems.same :
    {outer : Number → Number → Prop} →
    (∀ m n, outer m n → m.Identical n) →
    {as bs : List Json} →
    MatchesItems Number.Identical outer as bs → sameItems as bs = true
  | _, _, _, _, .nil => rfl
  | _, houter, _, _, .cons h hs => by
      rw [sameItems, h.same houter, hs.same houter, Bool.and_self]

theorem MatchesMembers.same :
    {as bs : List (String × Json)} →
    MatchesMembers Number.Identical as bs → sameMembers as bs = true
  | _, _, .nil => rfl
  | _, _, .cons h hs => by
      rw [sameMembers, h.same (fun _ _ => id), hs.same, beq_self_eq_true, Bool.and_self,
        Bool.and_self]

end

end Json
end DocumentStore
