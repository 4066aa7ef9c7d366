import DocumentStore.Index.Definition

/-!
# Errors of indexes and queries

A query that no index serves is refused with the definition of an index that
would serve it.
-/

namespace DocumentStore

/-- Why a query has no meaning. -/
inductive QueryFault where
  | badCollection (collection : String)
  | noTenant
  | tenantClause (field tenant : String)
  | repeatedOrder (field : String)
  | rangeNotFirst (field : String)
deriving DecidableEq, Repr

/-- The fault in words. -/
def QueryFault.message : QueryFault → String
  | badCollection collection => "'" ++ collection ++ "' is not a collection name"
  | noTenant => "query has no tenant"
  | tenantClause field tenant =>
      "a where-clause on '" ++ field ++ "' must be '== " ++ tenant ++ "'"
  | repeatedOrder field => "'" ++ field ++ "' appears twice in orderBy"
  | rangeNotFirst field =>
      "range field '" ++ field ++ "' must be the first orderBy field"

/-- Why no index serves a query. -/
inductive Unindexed where
  | severalRanges (fields : List String)
  | noIndex (wanted : List SortField)
deriving DecidableEq, Repr

/-- The reason in words. -/
def Unindexed.message : Unindexed → String
  | severalRanges fields =>
      "at most one range condition is allowed, found " ++ toString fields.length
        ++ " (" ++ Text.joined ", " fields ++ ")"
  | noIndex wanted =>
      "no index has the field order [" ++ describeFields wanted ++ "]"

/-- Why a request to the indexes failed. -/
inductive IndexError where
  | notIndexed (collection : String) (reason : Unindexed) (suggested : IndexDefinition)
  | invalidQuery (fault : QueryFault)
  | invalidDefinition (fault : DefinitionFault)
  | indexExists (name : String)
  | indexNotFound (name : String)
deriving DecidableEq, Repr

namespace IndexError

/-- The stable code of an error. -/
def code : IndexError → String
  | notIndexed .. => "QUERY_NOT_INDEXED"
  | invalidQuery _ => "INVALID_QUERY"
  | invalidDefinition _ => "INVALID_INDEX_DEFINITION"
  | indexExists _ => "INDEX_EXISTS"
  | indexNotFound _ => "INDEX_NOT_FOUND"

/-- The error in words. -/
def message : IndexError → String
  | notIndexed collection reason suggested =>
      "Query on '" ++ collection ++ "' is not indexed: " ++ reason.message
        ++ "; suggested index " ++ suggested.describe
  | invalidQuery fault => "Invalid query: " ++ fault.message
  | invalidDefinition fault => "Invalid index definition: " ++ fault.message
  | indexExists name => "Index '" ++ name ++ "' already exists"
  | indexNotFound name => "Index '" ++ name ++ "' not found"

/-- The definition that would serve the refused query. -/
def suggested? : IndexError → Option IndexDefinition
  | notIndexed _ _ suggested => some suggested
  | _ => none

end IndexError
end DocumentStore
