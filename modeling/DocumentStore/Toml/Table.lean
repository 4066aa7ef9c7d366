import DocumentStore.Toml.Value

/-!
# Building TOML tables

A document is built entry by entry.  A table that a header names may be named
once; one that only lies on the way to another may be named later.  A dotted
key makes tables of its own, which no header names and which other dotted keys
may extend.  A header in double brackets adds a table to an array of tables,
and keys and headers below it go to the table added last.
-/

namespace DocumentStore
namespace Toml

/-- How a table came about. -/
inductive Origin where
  /-- It lies on the way to a table that a header names. -/
  | passed
  /-- A dotted key made it. -/
  | dotted
  /-- A header names it. -/
  | named
deriving DecidableEq, Repr

/-- An entry of a table under construction. -/
inductive Item where
  | value (value : Value)
  | table (origin : Origin) (entries : List (String × Item))
  | tables (tables : List (List (String × Item)))

/-- The entries of a table under construction. -/
abbrev Entries := List (String × Item)

/-- Set an entry, behind the others if it is new. -/
def setEntry
    (name : String)
    (item : Item) :
    Entries → Entries
  | [] => [(name, item)]
  | (k, i) :: rest =>
      if k = name then (name, item) :: rest else (k, i) :: setEntry name item rest

/-- Change the last of several tables. -/
def changeLast?
    (change : Entries → Option Entries) :
    List Entries → Option (List Entries)
  | [] => none
  | [last] => (change last).map fun last => [last]
  | first :: rest => (changeLast? change rest).map (first :: ·)

/-- Enter a value under a key, below the tables of a dotted key. -/
def put?
    (key : String)
    (v : Value) :
    (path : List String) → Entries → Option Entries
  | [], entries =>
      match entries.lookup key with
      | some _ => none
      | none => some (setEntry key (.value v) entries)
  | name :: rest, entries =>
      match entries.lookup name with
      | none => (put? key v rest []).map fun inner => setEntry name (.table .dotted inner) entries
      | some (.value _) => none
      | some (.table origin inner) =>
          if origin = .named ∨ (rest.isEmpty ∧ origin ≠ .dotted) then none
          else (put? key v rest inner).map fun inner => setEntry name (.table origin inner) entries
      | some (.tables tables) =>
          if rest.isEmpty then none
          else
            (changeLast? (put? key v rest) tables).map fun tables =>
              setEntry name (.tables tables) entries

/-- Change the table at a path, making the tables on the way to it. -/
def changeAt?
    (change : Entries → Option Entries) :
    (path : List String) → Entries → Option Entries
  | [], entries => change entries
  | name :: rest, entries =>
      match entries.lookup name with
      | none =>
          (changeAt? change rest []).map fun inner => setEntry name (.table .passed inner) entries
      | some (.value _) => none
      | some (.table origin inner) =>
          (changeAt? change rest inner).map fun inner => setEntry name (.table origin inner) entries
      | some (.tables tables) =>
          (changeLast? (changeAt? change rest) tables).map fun tables =>
            setEntry name (.tables tables) entries

/-- Name a table in a header. -/
def nameTable?
    (key : String)
    (entries : Entries) :
    Option Entries :=
  match entries.lookup key with
  | none => some (setEntry key (.table .named []) entries)
  | some (.table .passed inner) => some (setEntry key (.table .named inner) entries)
  | some _ => none

/-- Add a table to an array of tables. -/
def addTable?
    (key : String)
    (entries : Entries) :
    Option Entries :=
  match entries.lookup key with
  | none => some (setEntry key (.tables [[]]) entries)
  | some (.tables tables) => some (setEntry key (.tables (tables ++ [[]])) entries)
  | some _ => none

mutual

/-- The finished value of an entry. -/
def Item.finish : Item → Value
  | .value v => v
  | .table _ entries => .table (finishEntries entries)
  | .tables tables => .array (finishTables tables)

/-- The finished values of the entries of a table. -/
def finishEntries : List (String × Item) → List (String × Value)
  | [] => []
  | (k, i) :: rest => (k, i.finish) :: finishEntries rest

/-- The finished tables of an array of tables. -/
def finishTables : List (List (String × Item)) → List Value
  | [] => []
  | t :: rest => .table (finishEntries t) :: finishTables rest

end

end Toml
end DocumentStore
