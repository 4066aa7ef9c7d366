import DocumentStore.Text.Pieces

/-!
# Document paths

A document path is an alternating chain of collection names and ids, such as
`tenants/T1/orders/O1`.  Slashes at its ends are ignored when it is read.  The
id of a document is the last segment of its path, its collection the one
before.
-/

namespace DocumentStore

/-- Why a text is no document path. -/
inductive PathFault where
  | emptyPath
  | emptySegment
  | blankAtEnd
  | oddSegments
deriving DecidableEq, Repr

/-- The reason in words. -/
def PathFault.message : PathFault → String
  | emptyPath => "path is empty"
  | emptySegment => "empty path segment"
  | blankAtEnd => "segments must not carry surrounding whitespace"
  | oddSegments => "a document path needs an even number of segments"

/-- The separator of segments. -/
def isSlash (c : Char) : Bool := c = '/'

/-- A text without the slashes at its ends. -/
def withoutOuterSlashes (raw : String) : String :=
  String.ofList (Text.trim isSlash raw.toList)

namespace DocumentPath

/-- What is wrong with a segment. -/
def segmentFault? (segment : List Char) : Option PathFault :=
  if segment = [] then some .emptySegment
  else if Text.trim Text.isBlank segment ≠ segment then some .blankAtEnd
  else none

/-- What is wrong with a text whose outer slashes have been removed. -/
def fault? (text : String) : Option PathFault :=
  if text.toList = [] then some .emptyPath
  else
    let segments := Text.splitAt '/' text.toList
    match segments.findSome? segmentFault? with
    | some fault => some fault
    | none => if segments.length % 2 = 0 then none else some .oddSegments

end DocumentPath

/-- The normal form of a document path. -/
structure DocumentPath where
  text : String
  sound : DocumentPath.fault? text = none
deriving DecidableEq

namespace DocumentPath

instance : ToString DocumentPath := ⟨text⟩

/-- Paths are ordered as their texts. -/
instance : Ord DocumentPath := ⟨fun a b => compare a.text b.text⟩

@[ext]
theorem ext
    {a b : DocumentPath}
    (h : a.text = b.text) :
    a = b := by
  cases a
  cases b
  cases h
  rfl

instance : Std.TransOrd DocumentPath where
  eq_swap {a b} := Std.OrientedOrd.eq_swap (a := a.text) (b := b.text)
  isLE_trans {a b c} h h' :=
    Std.TransOrd.isLE_trans (a := a.text) (b := b.text) (c := c.text) h h'

instance : Std.LawfulEqOrd DocumentPath where
  eq_of_compare {_ _} h := ext (Std.LawfulEqOrd.eq_of_compare h)
  compare_self {a} := Std.ReflOrd.compare_self (a := a.text)

/-- Read a path. -/
def parse (raw : String) : Except PathFault DocumentPath :=
  match h : fault? (withoutOuterSlashes raw) with
  | none => .ok ⟨withoutOuterSlashes raw, h⟩
  | some fault => .error fault

/-- The segments in order. -/
def segments (p : DocumentPath) : List String :=
  Text.pieces '/' p.text

/-- The last segment. -/
def id (p : DocumentPath) : String :=
  p.segments.reverse.headD p.text

/-- The collection that the document belongs to. -/
def collection (p : DocumentPath) : String :=
  (p.segments.reverse.drop 1).headD ""

end DocumentPath
end DocumentStore
