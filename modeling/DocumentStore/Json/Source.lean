import DocumentStore.Json.Basic

/-!
# Trees of JSON texts

A JSON text spells a tree.  The tree keeps what the value of the text forgets:
the order in which an object lists its members, the names that it repeats, and
literals that are well formed but have no value: a string whose escapes leave one
half of a surrogate pair alone, and a number beyond the range of binary64.
`Json.Source.toJson?` is the value of a tree, which a tree with such a literal does
not have.  A record is read from its fields only, so members with other names may
hold anything that is well formed: `Json.Source.record?` passes over them.
-/

namespace DocumentStore

/-- The tree of a JSON text; a literal without a value is none. -/
inductive Json.Source where
  | null
  | bool (value : Bool)
  | number (value : Option Json.Number)
  | string (value : Option String)
  | array (items : List Json.Source)
  | object (members : List (Option String × Json.Source))
deriving Inhabited

namespace Json
namespace Source

mutual

/-- The value of a tree; of several members with one name the last counts. -/
def toJson? : Source → Option Json
  | null => some .null
  | bool b => some (.bool b)
  | number n => n.map .number
  | string s => s.map .string
  | array items => (itemsToJson? items).map .array
  | object members => (membersToJson? members).map ofMembers

/-- The values of the items of an array. -/
def itemsToJson? : List Source → Option (List Json)
  | [] => some []
  | s :: rest =>
      match toJson? s, itemsToJson? rest with
      | some v, some values => some (v :: values)
      | _, _ => none

/-- The names and values of the members of an object. -/
def membersToJson? : List (Option String × Source) → Option (List (String × Json))
  | [] => some []
  | (name, s) :: rest =>
      match name, toJson? s, membersToJson? rest with
      | some name, some v, some members => some ((name, v) :: members)
      | _, _, _ => none

end

mutual

/-- How many arrays and objects stand inside each other. -/
def depth : Source → Nat
  | null | bool _ | number _ | string _ => 0
  | array items => itemsDepth items + 1
  | object members => membersDepth members + 1

/-- How many arrays and objects stand inside each other in the items of an array. -/
def itemsDepth : List Source → Nat
  | [] => 0
  | s :: rest => max (depth s) (itemsDepth rest)

/-- How many arrays and objects stand inside each other in the members of an object. -/
def membersDepth : List (Option String × Source) → Nat
  | [] => 0
  | (_, s) :: rest => max (depth s) (membersDepth rest)

end

/-- The value of a list whose items are read alike. -/
def list?
    (read : Source → Option Json) :
    Source → Option Json
  | array items => (items.mapM read).map .array
  | s => s.toJson?

/--
The value of a record with given fields.  All names of its members are strings;
members with other names are left out, and a field stands in it once at most.
-/
def record?
    (fields : List String)
    (read : Source → Option Json) :
    Source → Option Json
  | object members => do
      let named ← members.mapM fun m => m.1.map fun name => (name, m.2)
      let known := named.filter fun m => fields.contains m.1
      if (known.map Prod.fst).Nodup then
        (known.mapM fun m => (read m.2).map fun v => (m.1, v)).map ofMembers
      else
        none
  | s => list? read s

end Source
end Json
end DocumentStore
