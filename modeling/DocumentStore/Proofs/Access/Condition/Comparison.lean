import DocumentStore.Access.Condition.Eval
import DocumentStore.Proofs.Binary64
import DocumentStore.Proofs.Json

/-!
# Comparisons in conditions

Conditions and indexes compare alike: two values that may be keys are equal in
conditions exactly when they have one key, and where conditions know an order it
is the order of the keys.

Equality in conditions takes numbers by their values, in lists of lists as well
as alone.  Within objects it takes them as they are written: an integer differs
from the binary64 number of the same value.  Where no two numbers within objects
differ in that way, equality is a matter of values at any depth.  Values that are
equal stand for each other in every comparison.
-/

namespace DocumentStore
namespace Json

variable {a b : Json}

/-! ### Comparisons and keys -/

/-- All values but arrays and objects. -/
def IsScalar : Json → Prop
  | array _ | object _ => False
  | _ => True

theorem exists_key_of_isScalar
    (h : a.IsScalar) :
    ∃ key, KeyValue.ofJson? a = some key := by
  cases a with
  | array items => exact h.elim
  | object members => exact h.elim
  | _ => exact ⟨_, rfl⟩

theorem Number.equal_iff_rank_eq (m n : Number) :
    m.Equal n ↔ m.toBinary64.rank = n.toBinary64.rank := by
  rw [Equal, order, Binary64.order_eq_compare_rank]
  exact compare_eq_iff_eq

theorem equals_iff_key_eq
    {key key' : KeyValue}
    (ha : KeyValue.ofJson? a = some key)
    (hb : KeyValue.ofJson? b = some key') :
    a.equals b = true ↔ key = key' := by
  cases a <;> cases b <;>
    simp only [KeyValue.ofJson?, Option.some.injEq, reduceCtorEq] at ha hb <;>
    subst ha hb
  case number.number m n =>
    have hequals : (number m).equals (number n) = true ↔ m.Equal n := beq_iff_eq
    rw [hequals, Number.equal_iff_rank_eq, KeyValue.number.injEq]
  all_goals simp [equals, same]

theorem order?_eq_key_order
    {key key' : KeyValue}
    (ha : KeyValue.ofJson? a = some key)
    (hb : KeyValue.ofJson? b = some key')
    {o : Ordering}
    (h : a.order? b = some o) :
    o = key.order key' := by
  cases a <;> cases b <;> simp only [order?, Option.some.injEq, reduceCtorEq] at h
  case number.number m n =>
    cases ha
    cases hb
    rw [← h]
    exact Binary64.order_eq_compare_rank ..
  case string.string s t =>
    cases ha
    cases hb
    exact h.symm

theorem isSome_order?_iff (a b : Json) :
    (a.order? b).isSome = true ↔
      (∃ m n, a = number m ∧ b = number n) ∨ ∃ s t, a = string s ∧ b = string t := by
  cases a <;> cases b <;> simp [order?]

/--
Conditions and indexes compare alike: scalars have keys, they are equal exactly
when their keys are, and an order between them, which two numbers or two strings
have, is that of their keys.
-/
theorem comparisons_agree_with_keys
    (ha : a.IsScalar)
    (hb : b.IsScalar) :
    ∃ key key', KeyValue.ofJson? a = some key ∧ KeyValue.ofJson? b = some key' ∧
      (a.equals b = true ↔ key = key') ∧
      (∀ o, a.order? b = some o → o = key.order key') ∧
      ((a.order? b).isSome = true ↔
        (∃ m n, a = number m ∧ b = number n) ∨ ∃ s t, a = string s ∧ b = string t) := by
  obtain ⟨key, hkey⟩ := exists_key_of_isScalar ha
  obtain ⟨key', hkey'⟩ := exists_key_of_isScalar hb
  exact ⟨key, key', hkey, hkey', equals_iff_key_eq hkey hkey',
    fun _ => order?_eq_key_order hkey hkey', isSome_order?_iff a b⟩

/-- An odd integer of 54 bits. -/
def oddInteger : Json := number (.integer 0x20000000000001)

/-- The binary64 number next to it. -/
def evenNeighbour : Json := number (.float ⟨false, 0x4340000000000000, by decide⟩)

/-- The two share a key and are equal. -/
theorem oddInteger_agrees_with_keys :
    oddInteger.IsScalar ∧ evenNeighbour.IsScalar ∧
      ∃ key key', KeyValue.ofJson? oddInteger = some key ∧
        KeyValue.ofJson? evenNeighbour = some key' ∧ key = key' ∧
        oddInteger.equals evenNeighbour = true ∧
        oddInteger.order? evenNeighbour = some (key.order key') := by
  obtain ⟨key, key', hkey, hkey', hequals, horder, hdefined⟩ :=
    comparisons_agree_with_keys (a := oddInteger) (b := evenNeighbour) trivial trivial
  have hequal : oddInteger.equals evenNeighbour = true := by decide +kernel
  obtain ⟨o, ho⟩ := Option.isSome_iff_exists.1 (hdefined.2 (.inl ⟨_, _, rfl, rfl⟩))
  exact ⟨trivial, trivial, key, key', hkey, hkey', hequals.1 hequal, hequal, horder o ho ▸ ho⟩

/-! ### Equality as matching -/

mutual

/-- Values that are equal in conditions match, with identical numbers within objects. -/
theorem Matches.of_equals :
    {a b : Json} → a.equals b = true → Matches Number.Identical Number.Equal a b
  | .null, b, h => by
      cases b with
      | null => exact .null
      | _ => cases h
  | .bool x, b, h => by
      cases b with
      | bool y =>
          obtain rfl : x = y := beq_iff_eq.1 h
          exact .bool x
      | _ => cases h
  | .number m, b, h => by
      cases b with
      | number n => exact .number (beq_iff_eq.1 h)
      | _ => cases h
  | .string s, b, h => by
      cases b with
      | string t =>
          obtain rfl : s = t := beq_iff_eq.1 h
          exact .string s
      | _ => cases h
  | .array as, b, h => by
      cases b with
      | array bs => exact .array (MatchesItems.of_equalItems h)
      | _ => cases h
  | .object as, b, h => by
      cases b with
      | object bs => exact .object (MatchesMembers.of_same h)
      | _ => cases h

theorem MatchesItems.of_equalItems :
    {as bs : List Json} → equalItems as bs = true →
      MatchesItems Number.Identical Number.Equal as bs
  | [], [], _ => .nil
  | a :: as, b :: bs, h => by
      rw [equalItems, Bool.and_eq_true] at h
      exact .cons (Matches.of_equals h.1) (MatchesItems.of_equalItems h.2)

end

mutual

/-- Values that match, with identical numbers within objects, are equal in conditions. -/
theorem Matches.equals :
    {outer : Number → Number → Prop} →
    (∀ m n, outer m n → m.Equal n) →
    {a b : Json} →
    Matches Number.Identical outer a b → a.equals b = true
  | _, _, _, _, .null => rfl
  | _, _, _, _, .bool b => beq_self_eq_true b
  | _, houter, _, _, .number h => beq_iff_eq.2 (houter _ _ h)
  | _, _, _, _, .string s => beq_self_eq_true s
  | _, houter, _, _, .array h => h.equalItems houter
  | _, _, _, _, .object h => h.same

theorem MatchesItems.equalItems :
    {outer : Number → Number → Prop} →
    (∀ m n, outer m n → m.Equal n) →
    {as bs : List Json} →
    MatchesItems Number.Identical outer as bs → equalItems as bs = true
  | _, _, _, _, .nil => rfl
  | _, houter, _, _, .cons h hs => by
      rw [Json.equalItems, h.equals houter, hs.equalItems houter, Bool.and_self]

end

/-- Equality in conditions: by value where no object is around, as written within objects. -/
theorem equals_iff_matches :
    a.equals b = true ↔ Matches Number.Identical Number.Equal a b :=
  ⟨Matches.of_equals, Matches.equals fun _ _ => id⟩

theorem alike_of_equals
    (h : a.equals b = true) :
    a.Alike b :=
  (Matches.of_equals h).imp (fun _ _ _ _ => id) fun _ _ _ _ => Number.Identical.equal

/-- Numbers of one value within the objects of two values are written alike. -/
def WrittenAlike (a b : Json) : Prop :=
  ∀ m ∈ a.objectNumbers, ∀ n ∈ b.objectNumbers, m.Equal n → m.Identical n

instance (a b : Json) : Decidable (a.WrittenAlike b) :=
  inferInstanceAs (Decidable (∀ m ∈ _, ∀ n ∈ _, _ → _))

theorem WrittenAlike.symm
    (h : a.WrittenAlike b) :
    b.WrittenAlike a :=
  fun m hm n hn hequal => (h n hn m hm hequal.symm).symm

theorem WrittenAlike.of_mem
    {items : List Json}
    (h : a.WrittenAlike (.array items))
    {item : Json}
    (hitem : item ∈ items) :
    a.WrittenAlike item :=
  fun m hm n hn => h m hm n (mem_objectNumbersOfItems hitem hn)

/-- Values are equal in conditions if they are alike, with the numbers in objects written alike. -/
theorem WrittenAlike.equals_iff_alike
    (h : a.WrittenAlike b) :
    a.equals b = true ↔ a.Alike b :=
  ⟨alike_of_equals, fun halike => equals_iff_matches.2 (halike.imp (fun _ _ _ _ => id) h)⟩

/-! ### Equal values stand for each other -/

theorem equals_symm
    (h : a.equals b = true) :
    b.equals a = true :=
  equals_iff_matches.2
    ((equals_iff_matches.1 h).symm (fun _ _ => Number.Identical.symm) fun _ _ => Number.Equal.symm)

theorem equals_trans
    {c : Json}
    (h : a.equals b = true)
    (h' : b.equals c = true) :
    a.equals c = true := by
  refine equals_iff_matches.2
    (Matches.trans ?_ ?_ (equals_iff_matches.1 h) (equals_iff_matches.1 h'))
  · exact fun _ _ _ => Number.Identical.trans
  · exact fun _ _ _ => Number.Equal.trans

theorem equals_congr
    (h : a.equals b = true)
    (other : Json) :
    a.equals other = b.equals other :=
  Bool.eq_iff_iff.2 ⟨equals_trans (equals_symm h), equals_trans h⟩

theorem equals_congr_right
    (h : a.equals b = true)
    (other : Json) :
    other.equals a = other.equals b :=
  Bool.eq_iff_iff.2 ⟨fun h' => equals_trans h' h, fun h' => equals_trans h' (equals_symm h)⟩

/-- Equal values stand in the same order to others. -/
theorem order?_congr
    (h : a.Alike b)
    (other : Json) :
    a.order? other = b.order? other ∧ other.order? a = other.order? b := by
  cases h with
  | @number _ m n hequal =>
      have hunits := Number.equal_iff.1 hequal
      have horder (l : Number) : m.order l = n.order l ∧ l.order m = l.order n := by
        simp only [Number.order, Binary64.order, hunits, and_self]
      cases other with
      | number l => simp only [order?, (horder l).1, (horder l).2, and_self]
      | _ => exact ⟨rfl, rfl⟩
  | array h => cases other <;> exact ⟨rfl, rfl⟩
  | object h => cases other <;> exact ⟨rfl, rfl⟩
  | _ => exact ⟨rfl, rfl⟩

/-- A value is among items if it is among equal ones. -/
theorem any_equals_of_equalItems
    {as bs : List Json}
    (h : equalItems as bs = true)
    (needle : Json) :
    (as.any fun item => equals item needle) = bs.any fun item => equals item needle := by
  induction as generalizing bs with
  | nil =>
      cases bs with
      | nil => rfl
      | cons b bs => cases h
  | cons a as ih =>
      cases bs with
      | nil => cases h
      | cons b bs =>
          rw [equalItems, Bool.and_eq_true] at h
          rw [List.any_cons, List.any_cons, equals_congr h.1, ih h.2]

theorem isSome_member?_of_sameMembers
    {as bs : List (String × Json)}
    (h : sameMembers as bs = true)
    (name : String) :
    (member? name as).isSome = (member? name bs).isSome := by
  induction as generalizing bs with
  | nil =>
      cases bs with
      | nil => rfl
      | cons b bs => cases h
  | cons a as ih =>
      cases bs with
      | nil => cases h
      | cons b bs =>
          rw [sameMembers, Bool.and_eq_true, Bool.and_eq_true, beq_iff_eq] at h
          obtain ⟨⟨hname, -⟩, hrest⟩ := h
          rw [member?, member?, hname]
          split
          · rfl
          · exact ih hrest

theorem isIn?_congr
    (h : a.equals b = true)
    (haystack : Json) :
    isIn? a haystack = isIn? b haystack := by
  cases haystack with
  | array items =>
      have hitem (item : Json) : item.equals a = item.equals b := equals_congr_right h item
      simp only [isIn?, hitem]
  | _ => cases equals_iff_matches.1 h <;> rfl

/-- The same values are in equal lists, objects and strings. -/
theorem isIn?_congr_right
    (h : a.equals b = true)
    (needle : Json) :
    isIn? needle a = isIn? needle b := by
  cases a with
  | array as =>
      cases b with
      | array bs => exact congrArg some (any_equals_of_equalItems h needle)
      | _ => cases h
  | object as =>
      cases b with
      | object bs =>
          cases needle with
          | string name => exact congrArg some (isSome_member?_of_sameMembers h name)
          | _ => rfl
      | _ => cases h
  | _ =>
      cases equals_iff_matches.1 h
      cases needle <;> rfl

end Json

namespace Condition

variable {ctx : AccessContext} {bindings : Bindings} {left right : Condition} {a b : Json}

theorem value_compare
    (op : CompareOp)
    (hleft : (eval ctx bindings left).value = some a)
    (hright : (eval ctx bindings right).value = some b) :
    (eval ctx bindings (.compare op left right)).value = (compareValues? op a b).map .bool := by
  simp only [eval, Reading.andThen, hleft, hright, Reading.fixed]

/-- A test for membership looks for the value of one side in that of the other. -/
theorem value_isIn
    (hleft : (eval ctx bindings left).value = some a)
    (hright : (eval ctx bindings right).value = some b) :
    (eval ctx bindings (.isIn left right)).value = (Json.isIn? a b).map .bool := by
  simp only [eval, Reading.andThen, hleft, hright, Reading.fixed]

theorem compareValues?_congr
    (h : a.equals b = true)
    (op : CompareOp)
    (other : Json) :
    compareValues? op a other = compareValues? op b other ∧
      compareValues? op other a = compareValues? op other b := by
  obtain ⟨horder, horder'⟩ := Json.order?_congr (Json.alike_of_equals h) other
  cases op <;>
    simp only [compareValues?, Json.equals_congr h, Json.equals_congr_right h, horder, horder',
      and_self]

/--
Equality is a matter of structure and of the values of numbers, at any depth,
unless the objects of the two values have a number in common that is written in
two ways: so `==` and `!=` decide, and `in` for lists.  Values that differ only in
how numbers outside of objects are written stand for each other in every
comparison, on either side.
-/
theorem equality_ignores_notation
    (hwritten : a.WrittenAlike b) :
    (a.equals b = true ↔ a.Alike b) ∧
    (∀ {ctx bindings left right},
      (eval ctx bindings left).value = some a →
      (eval ctx bindings right).value = some b →
      (∃ verdict, (verdict = true ↔ a.Alike b) ∧
        (eval ctx bindings (.compare .eq left right)).value = some (.bool verdict) ∧
        (eval ctx bindings (.compare .ne left right)).value = some (.bool !verdict)) ∧
      ∀ items, b = .array items →
        ∃ found, (found = true ↔ ∃ item ∈ items, item.Alike a) ∧
          (eval ctx bindings (.isIn left right)).value = some (.bool found)) ∧
    (a.Alike b → ∀ other,
      (∀ op, compareValues? op a other = compareValues? op b other ∧
        compareValues? op other a = compareValues? op other b) ∧
      Json.isIn? a other = Json.isIn? b other ∧
      Json.isIn? other a = Json.isIn? other b) := by
  have hequals := hwritten.equals_iff_alike
  refine ⟨hequals, ?_, ?_⟩
  · intro ctx bindings left right hleft hright
    refine ⟨⟨a.equals b, hequals, ?_, ?_⟩, ?_⟩
    · rw [value_compare .eq hleft hright, compareValues?, Option.map_some]
    · rw [value_compare .ne hleft hright, compareValues?, Option.map_some]
    · rintro items rfl
      refine ⟨items.any fun item => item.equals a, ?_, ?_⟩
      · rw [List.any_eq_true]
        refine exists_congr fun item => and_congr_right fun hitem => ?_
        exact (hwritten.of_mem hitem).symm.equals_iff_alike
      · rw [value_isIn hleft hright, Json.isIn?, Option.map_some]
  · intro halike other
    have h := hequals.2 halike
    exact ⟨fun op => compareValues?_congr h op other, Json.isIn?_congr h other,
      Json.isIn?_congr_right h other⟩

/-- A list with an integer, an object, and the negative zero. -/
def asMeasured : Json :=
  .array
    [.ofNat 1,
     .object
       [("count", .ofNat 3), ("rate", .number (.float ⟨false, 0x4004000000000000, by decide⟩))],
     .number (.float Binary64.zero.neg)]

/-- The same with one as a binary64 number and zero as an integer. -/
def asStored : Json :=
  .array
    [.number (.float ⟨false, 0x3FF0000000000000, by decide⟩),
     .object
       [("count", .ofNat 3), ("rate", .number (.float ⟨false, 0x4004000000000000, by decide⟩))],
     .ofNat 0]

/-- Their objects are written alike, so the two stand for each other. -/
theorem asMeasured_stands_for_asStored :
    asMeasured.WrittenAlike asStored ∧
    asMeasured.equals asStored = true ∧
    asMeasured.Alike asStored ∧
    ∀ other, Json.isIn? asMeasured other = Json.isIn? asStored other := by
  have hwritten : asMeasured.WrittenAlike asStored := by decide +kernel
  have hequal : asMeasured.equals asStored = true := by decide +kernel
  obtain ⟨hiff, -, hreplace⟩ := equality_ignores_notation hwritten
  exact ⟨hwritten, hequal, hiff.1 hequal, fun other => (hreplace (hiff.1 hequal) other).2.1⟩

/-- An object with the integer one. -/
def oneWhole : Json := .object [("x", .ofNat 1)]

/-- The same with one as a binary64 number. -/
def oneFloating : Json :=
  .object [("x", .number (.float ⟨false, 0x3FF0000000000000, by decide⟩))]

/-- Objects are compared as they are written: these two are alike, and a condition denies it. -/
theorem oneWhole_differs_from_oneFloating :
    oneWhole.Alike oneFloating ∧
    oneWhole.equals oneFloating = false ∧
    let payload : Json := .object [("a", oneWhole), ("b", oneFloating)]
    (eval { AccessContext.empty with payload } []
      (.compare .eq (.var "request" ["data", "a"]) (.var "request" ["data", "b"]))).value =
        some (.bool false) := by
  have hone :
      (Json.Number.integer 1).order (.float ⟨false, 0x3FF0000000000000, by decide⟩) = .eq := by
    decide +kernel
  exact ⟨.object (.cons (.number hone) .nil), by decide +kernel, by decide +kernel⟩

end Condition
end DocumentStore
