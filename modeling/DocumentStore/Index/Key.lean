import DocumentStore.Index.Definition

/-!
# Index keys

A key is the list of the values of the fields of an index.  Null comes before
truth values, these before numbers, and numbers before strings.  A number
enters as its rank, a natural number that grows with the number and is one
rank for the two zeros.  Arrays and objects have no place in a key.
-/

namespace DocumentStore

/--
The rank of a sign and a magnitude among all of them: for a nonnegative number
its bits with the first one set, for a negative one its bits inverted.
-/
def Binary64.rankOf
    (negative : Bool)
    (m : Nat) :
    Nat :=
  if m = 0 then signBit
  else if negative then signBit - 1 - m
  else signBit + m

/-- The rank of a number among all binary64 numbers. -/
def Binary64.rank (x : Binary64) : Nat :=
  rankOf x.negative x.magnitude

/-- The value of one field in a key. -/
inductive KeyValue where
  | null
  | bool (value : Bool)
  | number (rank : Nat)
  | string (value : String)
deriving DecidableEq, Repr

namespace KeyValue

/-- The place of the kind of a value among the kinds. -/
def kind : KeyValue → Nat
  | null => 0
  | bool _ => 1
  | number _ => 2
  | string _ => 3

/-- Whether two values are of one kind. -/
def sameKind (a b : KeyValue) : Bool :=
  a.kind == b.kind

/-- Ascending order: by kind, then by value. -/
def order : KeyValue → KeyValue → Ordering
  | bool a, bool b => compare a b
  | number a, number b => compare a b
  | string a, string b => compare a b
  | a, b => compare a.kind b.kind

/-- The key value of a JSON value. -/
def ofJson? : Json → Option KeyValue
  | .null => some null
  | .bool b => some (bool b)
  | .number n => some (number n.toBinary64.rank)
  | .string s => some (string s)
  | .array _ => none
  | .object _ => none

end KeyValue

/-- A value with the direction in which its field is sorted. -/
structure KeyPart where
  value : KeyValue
  direction : Direction
deriving DecidableEq, Repr

/-- The order of parts, in the direction of the first. -/
def KeyPart.order (a b : KeyPart) : Ordering :=
  match a.direction with
  | .asc => a.value.order b.value
  | .desc => (a.value.order b.value).swap

/-- A key: the values of the fields of an index in the order of the fields. -/
abbrev Key := List KeyPart

/-- Part by part; of two keys one of which starts with the other, the shorter comes first. -/
def Key.order : Key → Key → Ordering
  | [], [] => .eq
  | [], _ :: _ => .lt
  | _ :: _, [] => .gt
  | a :: as, b :: bs => (a.order b).then (Key.order as bs)

end DocumentStore
