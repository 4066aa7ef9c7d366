import DocumentStore.Binary64.Rounding

/-!
# JSON values

The payload of a document is a JSON value.  A number is an integer or a
binary64 number, and the two never coincide: `1` and `1.0` are different
values.  An object lists its members in ascending order of their names, each
name once; `Json.ofMembers` and `Json.insert` keep that order.
-/

namespace DocumentStore

/-- A JSON number: an integer, or a binary64 number. -/
inductive Json.Number where
  | integer (value : Int)
  | float (value : Binary64)
deriving DecidableEq

/-- A JSON value. -/
inductive Json where
  | null
  | bool (value : Bool)
  | number (value : Json.Number)
  | string (value : String)
  | array (items : List Json)
  | object (members : List (String × Json))
deriving Inhabited

namespace Json

/-! ### Numbers -/

/-- An integer of 64 bits without a sign. -/
def Unsigned64 (i : Int) : Prop :=
  0 ≤ i ∧ i < 0x10000000000000000

/-- An integer of 64 bits with a sign. -/
def Signed64 (i : Int) : Prop :=
  -0x8000000000000000 ≤ i ∧ i < 0x8000000000000000

instance (i : Int) : Decidable (Unsigned64 i) :=
  inferInstanceAs (Decidable (_ ∧ _))

instance (i : Int) : Decidable (Signed64 i) :=
  inferInstanceAs (Decidable (_ ∧ _))

namespace Number

/-- The binary64 number nearest to a number. -/
def toBinary64 : Number → Binary64
  | integer i => Binary64.ofInt i
  | float x => x

/-- Equal as values: integers with integers, floats with floats. -/
def same : Number → Number → Bool
  | integer i, integer j => i == j
  | float x, float y => x.order y == .eq
  | _, _ => false

/-- Numeric comparison after rounding to binary64. -/
def order (a b : Number) : Ordering :=
  a.toBinary64.order b.toBinary64

end Number

/-- An integer as a JSON value. -/
def ofNat (n : Nat) : Json := number (.integer n)

/-! ### Equality -/

mutual

/-- Decide whether two values are the same term. -/
def decEq : (a b : Json) → Decidable (a = b)
  | null, null => isTrue rfl
  | bool a, bool b =>
      if h : a = b then isTrue (h ▸ rfl) else isFalse fun e => h (bool.inj e)
  | number a, number b =>
      if h : a = b then isTrue (h ▸ rfl) else isFalse fun e => h (number.inj e)
  | string a, string b =>
      if h : a = b then isTrue (h ▸ rfl) else isFalse fun e => h (string.inj e)
  | array a, array b =>
      match decEqItems a b with
      | isTrue h => isTrue (h ▸ rfl)
      | isFalse h => isFalse fun e => h (array.inj e)
  | object a, object b =>
      match decEqMembers a b with
      | isTrue h => isTrue (h ▸ rfl)
      | isFalse h => isFalse fun e => h (object.inj e)
  | null, bool _ | null, number _ | null, string _ | null, array _ | null, object _
  | bool _, null | bool _, number _ | bool _, string _ | bool _, array _ | bool _, object _
  | number _, null | number _, bool _ | number _, string _ | number _, array _
  | number _, object _
  | string _, null | string _, bool _ | string _, number _ | string _, array _
  | string _, object _
  | array _, null | array _, bool _ | array _, number _ | array _, string _
  | array _, object _
  | object _, null | object _, bool _ | object _, number _ | object _, string _
  | object _, array _ => isFalse (by simp)

/-- Decide whether two lists of values are the same. -/
def decEqItems : (a b : List Json) → Decidable (a = b)
  | [], [] => isTrue rfl
  | [], _ :: _ => isFalse (by simp)
  | _ :: _, [] => isFalse (by simp)
  | a :: as, b :: bs =>
      match decEq a b, decEqItems as bs with
      | isTrue h, isTrue hs => isTrue (by rw [h, hs])
      | isFalse h, _ => isFalse fun e => h (List.cons.inj e).1
      | _, isFalse hs => isFalse fun e => hs (List.cons.inj e).2

/-- Decide whether two lists of members are the same. -/
def decEqMembers : (a b : List (String × Json)) → Decidable (a = b)
  | [], [] => isTrue rfl
  | [], _ :: _ => isFalse (by simp)
  | _ :: _, [] => isFalse (by simp)
  | (k, a) :: as, (l, b) :: bs =>
      match (inferInstance : Decidable (k = l)), decEq a b, decEqMembers as bs with
      | isTrue hk, isTrue h, isTrue hs => isTrue (by rw [hk, h, hs])
      | isFalse hk, _, _ => isFalse fun e => hk (Prod.mk.inj (List.cons.inj e).1).1
      | _, isFalse h, _ => isFalse fun e => h (Prod.mk.inj (List.cons.inj e).1).2
      | _, _, isFalse hs => isFalse fun e => hs (List.cons.inj e).2

end

instance : DecidableEq Json := decEq

mutual

/--
Equality of values.  It differs from being the same term in one point: the
two binary64 zeros are equal.
-/
def same : Json → Json → Bool
  | null, null => true
  | bool a, bool b => a == b
  | number a, number b => a.same b
  | string a, string b => a == b
  | array as, array bs => sameItems as bs
  | object as, object bs => sameMembers as bs
  | _, _ => false

/-- Equality of lists of values, item by item. -/
def sameItems : List Json → List Json → Bool
  | [], [] => true
  | a :: as, b :: bs => same a b && sameItems as bs
  | _, _ => false

/-- Equality of lists of members, name and value alike. -/
def sameMembers : List (String × Json) → List (String × Json) → Bool
  | [], [] => true
  | (k, a) :: as, (l, b) :: bs => k == l && same a b && sameMembers as bs
  | _, _ => false

end

/-! ### Objects -/

/-- The value of a name among members. -/
def member?
    (name : String) :
    List (String × Json) → Option Json
  | [] => none
  | (k, v) :: rest => if k = name then some v else member? name rest

/-- Set the value of a name, keeping the members in ascending order. -/
def setMember
    (name : String)
    (value : Json) :
    List (String × Json) → List (String × Json)
  | [] => [(name, value)]
  | (k, v) :: rest =>
      if name < k then (name, value) :: (k, v) :: rest
      else if name = k then (name, value) :: rest
      else (k, v) :: setMember name value rest

/-- The object with given members; of several with one name the last stays. -/
def ofMembers (members : List (String × Json)) : Json :=
  object (members.foldl (fun acc m => setMember m.1 m.2 acc) [])

/-- The value of a name in an object. -/
def get? : Json → String → Option Json
  | object members, name => member? name members
  | _, _ => none

/-- Walk down nested objects along a list of names. -/
def walk? : Json → List String → Option Json
  | v, [] => some v
  | v, name :: rest =>
      match v.get? name with
      | none => none
      | some inner => walk? inner rest

end Json
end DocumentStore
