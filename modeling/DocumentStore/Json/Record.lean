import DocumentStore.Json.Basic

/-!
# Records and variants in JSON

A record is written as an object whose members are its fields; members with
other names are ignored.  It may also be written as an array that lists the
fields in their order, where the last ones may be missing; whether items may
follow the last field depends on the format that the value was written in.  A variant of a
closed set of names is written as its name.  A tagged record carries the name
of its variant in one field, or as the first item of the array.
-/

namespace DocumentStore
namespace Json

/-- What becomes of the items after the last field of a record in an array. -/
inductive Surplus where
  /-- The array is no record. -/
  | refused
  /-- They are passed over. -/
  | ignored
deriving DecidableEq, Repr

/--
The values of the fields of a record; each field is given by the names it may
carry.  A field that occurs twice is an error.
-/
def slots?
    (surplus : Surplus)
    (fields : List (List String)) :
    Json → Option (List (Option Json))
  | object members =>
      fields.mapM fun names =>
        match members.filter fun m => names.contains m.1 with
        | [] => some none
        | [m] => some (some m.2)
        | _ => none
  | array items =>
      if items.length ≤ fields.length ∨ surplus = .ignored then
        some ((items.take fields.length).map some
          ++ List.replicate (fields.length - items.length) none)
      else
        none
  | _ => none

/-- The value of a field that must be there. -/
def required
    {α : Type}
    (read : Json → Option α) :
    Option Json → Option α
  | none => none
  | some v => read v

/-- The value of a field that may be absent. -/
def withDefault
    {α : Type}
    (default : α)
    (read : Json → Option α) :
    Option Json → Option α
  | none => some default
  | some v => read v

/-- The value of a field that may be absent or null. -/
def optional
    {α : Type}
    (read : Json → Option α) :
    Option Json → Option (Option α)
  | none => some none
  | some null => some none
  | some v => (read v).map some

/-- A string. -/
def asString? : Json → Option String
  | string s => some s
  | _ => none

/-- A truth value. -/
def asBool? : Json → Option Bool
  | bool b => some b
  | _ => none

/-- An integer from 0 to 2^64-1. -/
def asWord? : Json → Option UInt64
  | number (.integer i) =>
      if Unsigned64 i then some (UInt64.ofNat i.toNat) else none
  | _ => none

/-- A list whose items are read alike. -/
def asList?
    {α : Type}
    (read : Json → Option α) :
    Json → Option (List α)
  | array items => items.mapM read
  | _ => none

/-- A 64-bit number as an integer. -/
def ofWord (w : UInt64) : Json :=
  ofNat w.toNat

/-- A value, or null when there is none. -/
def ofOption
    {α : Type}
    (write : α → Json) :
    Option α → Json
  | none => null
  | some a => write a

/--
Where a variant stands.  Inside a record that has to be read whole before its
variant is known, the name of a variant may also be given by its position, and
the empty object may stand for null.
-/
inductive Place where
  | outer
  | inner
deriving DecidableEq, Repr

/-- The name of a variant without content, alone or with a null content. -/
def choice?
    (place : Place) :
    Json → Option String
  | string s => some s
  | object [(s, null)] => some s
  | object [(s, object [])] => if place = .inner then some s else none
  | _ => none

/-- The name of the variant of a tagged record. -/
def tagName?
    (place : Place)
    (names : List String) :
    Json → Option String
  | string s => if names.contains s then some s else none
  | number (.integer i) =>
      if place = .inner ∧ 0 ≤ i then names[i.toNat]? else none
  | _ => none

/-- The variant of a tagged record and its other fields. -/
def tagged?
    (place : Place)
    (tag : String)
    (names : List String) :
    Json → Option (String × Json)
  | object members =>
      match members.filter fun m => m.1 == tag with
      | [m] =>
          (tagName? place names m.2).map fun name =>
            (name, object (members.filter fun m => m.1 != tag))
      | _ => none
  | array (t :: rest) =>
      (tagName? place names t).map fun name => (name, array rest)
  | _ => none

end Json
end DocumentStore
