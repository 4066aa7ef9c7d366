import DocumentStore.Index.Key
import DocumentStore.Path

/-!
# Sorted trees of keys

The tree of an index holds, for each key in ascending order, the paths of the
documents that have it, in ascending order too.  A key whose last path is
removed goes with it.  A scan yields the entries from a starting key on, as
long as their keys begin alike and the next part does not exceed a bound.
-/

namespace DocumentStore

/-- Add a path to ascending paths. -/
def insertPath
    (path : DocumentPath) :
    List DocumentPath → List DocumentPath
  | [] => [path]
  | p :: rest =>
      match compare path p with
      | .lt => path :: p :: rest
      | .eq => p :: rest
      | .gt => p :: insertPath path rest

/-- Take a path from ascending paths. -/
def erasePath
    (path : DocumentPath) :
    List DocumentPath → List DocumentPath
  | [] => []
  | p :: rest =>
      match compare path p with
      | .lt => p :: rest
      | .eq => rest
      | .gt => p :: erasePath path rest

/-- The paths of each key, keys and paths in ascending order. -/
structure Tree where
  nodes : List (Key × List DocumentPath)
deriving DecidableEq

namespace Tree

/-- The tree without keys. -/
def empty : Tree := ⟨[]⟩

instance : Inhabited Tree := ⟨empty⟩

/-- Add a path under a key to a list of nodes. -/
def insertNode
    (key : Key)
    (path : DocumentPath) :
    List (Key × List DocumentPath) → List (Key × List DocumentPath)
  | [] => [(key, [path])]
  | (k, paths) :: rest =>
      match key.order k with
      | .lt => (key, [path]) :: (k, paths) :: rest
      | .eq => (k, insertPath path paths) :: rest
      | .gt => (k, paths) :: insertNode key path rest

/-- Take a path under a key from a list of nodes. -/
def eraseNode
    (key : Key)
    (path : DocumentPath) :
    List (Key × List DocumentPath) → List (Key × List DocumentPath)
  | [] => []
  | (k, paths) :: rest =>
      match key.order k with
      | .lt => (k, paths) :: rest
      | .eq =>
          match erasePath path paths with
          | [] => rest
          | left => (k, left) :: rest
      | .gt => (k, paths) :: eraseNode key path rest

/-- Add a path under a key. -/
def insert
    (t : Tree)
    (key : Key)
    (path : DocumentPath) :
    Tree :=
  ⟨insertNode key path t.nodes⟩

/-- Take a path under a key away. -/
def erase
    (t : Tree)
    (key : Key)
    (path : DocumentPath) :
    Tree :=
  ⟨eraseNode key path t.nodes⟩

/-- Every path with its key, in ascending order of the keys and then of the paths. -/
def toList (t : Tree) : List (Key × DocumentPath) :=
  t.nodes.flatMap fun n => n.2.map fun path => (n.1, path)

/-- Whether a key begins with given parts and its next part is within an upper bound. -/
def within
    (start : Key)
    (upper : Option KeyPart)
    (key : Key) :
    Bool :=
  start.isPrefixOf key &&
    match upper, key[start.length]? with
    | some bound, some part => part.order bound != .gt
    | _, _ => true

/--
The entries whose keys begin with given parts and whose next part lies between
two bounds, either of which may be missing.
-/
def scan
    (t : Tree)
    (start : Key)
    (lower upper : Option KeyPart) :
    List (Key × DocumentPath) :=
  let seek : Key := start ++ lower.toList
  let nodes := t.nodes.dropWhile fun n => seek.order n.1 == .gt
  (nodes.takeWhile fun n => within start upper n.1).flatMap fun n =>
    n.2.map fun path => (n.1, path)

/-- The number of keys. -/
def keyCount (t : Tree) : Nat :=
  t.nodes.length

/-- The number of paths under all keys. -/
def pathCount (t : Tree) : Nat :=
  t.toList.length

end Tree
end DocumentStore
