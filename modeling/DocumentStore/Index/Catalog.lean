import DocumentStore.Document
import DocumentStore.Index.Error
import DocumentStore.Index.Tree
import DocumentStore.OrderedMap

/-!
# The catalog of indexes

Every index holds one entry for each document of its collection that has a
key: all its fields are present and have a place in a key.  The tenant field
stands for the tenant of the document.  A change of a document takes the entry
of its earlier form out of every index of the collection and puts the entry of
its later form in.
-/

namespace DocumentStore

/-- What a write does to a document. -/
inductive ChangeKind where
  | create
  | update
  | delete
deriving DecidableEq, Repr

/-- The written name. -/
def ChangeKind.name : ChangeKind → String
  | create => "CREATE"
  | update => "UPDATE"
  | delete => "DELETE"

/-- A change of one document: its form before and after. -/
structure Change where
  kind : ChangeKind
  tenant : String
  path : DocumentPath
  before : Option Document
  after : Option Document
deriving DecidableEq

/-- An index: its definition and its tree. -/
structure Index where
  definition : IndexDefinition
  tree : Tree
deriving DecidableEq

namespace Index

/-- The value of a field of a document as a part of a key. -/
def partFor?
    (tenantField : String)
    (doc : Document)
    (f : SortField) :
    Option KeyPart :=
  if f.field = tenantField then
    some ⟨.string doc.tenant, f.direction⟩
  else
    match doc.field? f.field with
    | none => none
    | some value => (KeyValue.ofJson? value).map fun v => ⟨v, f.direction⟩

/-- The key of a document, if it has one. -/
def keyFor?
    (definition : IndexDefinition)
    (tenantField : String)
    (doc : Document) :
    Option Key :=
  definition.fields.mapM (partFor? tenantField doc)

/-- Put the entry of a document in. -/
def add
    (index : Index)
    (tenantField : String)
    (doc : Document) :
    Index :=
  match keyFor? index.definition tenantField doc with
  | none => index
  | some key => { index with tree := index.tree.insert key doc.path }

/-- Take the entry of a document out. -/
def remove
    (index : Index)
    (tenantField : String)
    (doc : Document) :
    Index :=
  match keyFor? index.definition tenantField doc with
  | none => index
  | some key => { index with tree := index.tree.erase key doc.path }

/-- Follow a change of a document. -/
def follow
    (index : Index)
    (tenantField : String)
    (change : Change) :
    Index :=
  if index.definition.collection = change.path.collection then
    let removed :=
      match change.before with
      | none => index
      | some doc => index.remove tenantField doc
    match change.after with
    | none => removed
    | some doc => removed.add tenantField doc
  else
    index

end Index

/-- The size of an index. -/
structure IndexStats where
  name : String
  collection : String
  entries : Nat
  keys : Nat
deriving DecidableEq, Repr

/-- All indexes by name, and the name of the tenant field. -/
structure Catalog where
  tenantField : String
  indexes : OrderedMap String Index
deriving DecidableEq

namespace Catalog

/-- A catalog without indexes. -/
def new (tenantField : String) : Catalog :=
  ⟨tenantField, OrderedMap.empty⟩

/-- The definitions of all indexes in the order of their names. -/
def definitions (c : Catalog) : List IndexDefinition :=
  c.indexes.values.map Index.definition

/-- Declare an index and enter the given documents of its collection. -/
def create
    (c : Catalog)
    (definition : IndexDefinition)
    (documents : List Document) :
    Except IndexError (IndexDefinition × Catalog) :=
  match definition.normalized c.tenantField with
  | .error fault => .error (.invalidDefinition fault)
  | .ok definition =>
      match c.indexes.get? definition.name with
      | some _ => .error (.indexExists definition.name)
      | none =>
          let docs := documents.filter fun d => d.collection = definition.collection
          let index := docs.foldl (fun i d => i.add c.tenantField d) ⟨definition, Tree.empty⟩
          .ok (definition, { c with indexes := c.indexes.insert definition.name index })

/-- Remove an index. -/
def drop
    (c : Catalog)
    (name : String) :
    Except IndexError (IndexDefinition × Catalog) :=
  match c.indexes.get? name with
  | none => .error (.indexNotFound name)
  | some index => .ok (index.definition, { c with indexes := c.indexes.erase name })

/-- The definitions of the indexes of a collection. -/
def list
    (c : Catalog)
    (collection : String) :
    List IndexDefinition :=
  c.definitions.filter fun d => d.collection = collection

/-- The sizes of all indexes. -/
def stats (c : Catalog) : List IndexStats :=
  c.indexes.values.map fun i =>
    ⟨i.definition.name, i.definition.collection, i.tree.pathCount, i.tree.keyCount⟩

/-- Let every index follow a change. -/
def follow
    (c : Catalog)
    (change : Change) :
    Catalog :=
  { c with indexes := c.indexes.mapValues fun i => i.follow c.tenantField change }

end Catalog
end DocumentStore
