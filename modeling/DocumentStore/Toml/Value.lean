import DocumentStore.Json.Basic

/-!
# TOML values

What a TOML text stands for, and how it is seen as a JSON value.  The infinite
and undefined floats, which JSON lacks, are seen as the largest number, and a
date or time as an object without members.
-/

namespace DocumentStore

/-- A value of a TOML document. -/
inductive Toml.Value where
  | string (value : String)
  | integer (value : Int)
  /-- None stands for the infinite and undefined floats. -/
  | float (value : Option Binary64)
  | bool (value : Bool)
  /-- A date, a time of day or both. -/
  | moment
  | array (items : List Toml.Value)
  | table (entries : List (String × Toml.Value))

namespace Toml
namespace Value

mutual

/-- The value as JSON. -/
def toJson : Value → Json
  | string s => .string s
  | integer i => .number (.integer i)
  | float x => .number (.float (x.getD Binary64.greatest))
  | bool b => .bool b
  | moment => .object []
  | array items => .array (itemsToJson items)
  | table entries => Json.ofMembers (entriesToJson entries)

/-- The items of an array as JSON. -/
def itemsToJson : List Value → List Json
  | [] => []
  | v :: rest => toJson v :: itemsToJson rest

/-- The entries of a table as JSON. -/
def entriesToJson : List (String × Value) → List (String × Json)
  | [] => []
  | (k, v) :: rest => (k, toJson v) :: entriesToJson rest

end

end Value
end Toml
end DocumentStore
