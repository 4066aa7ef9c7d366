import DocumentStore.Access.Guard
import DocumentStore.Index.Error
import DocumentStore.Store.Error

/-!
# Errors of requests

An error of the store, the indexes, the rules or the settings, or a request
that was refused.  Every error has a stable code, a status in the manner of
HTTP, and a text.
-/

namespace DocumentStore

/-- Why a request was refused before anything was carried out. -/
inductive Refusal where
  | foreignPath (named tenant : String)
  | foreignCaller (claimed tenant : String)
  | byRules (reason : String)
deriving DecidableEq, Repr

/-- The reason in words. -/
def Refusal.message : Refusal → String
  | foreignPath named tenant => "path belongs to tenant " ++ named ++ " not " ++ tenant
  | foreignCaller claimed tenant => "caller belongs to tenant " ++ claimed ++ " not " ++ tenant
  | byRules reason => reason

/-- Why a request failed. -/
inductive RequestError where
  | store (error : StoreError)
  | index (error : IndexError)
  | rules (error : RuleError)
  | denied (kind : AccessKind) (path : String) (refusal : Refusal)
  | settings (fault : SettingsFault)
deriving DecidableEq, Repr

namespace RequestError

/-- The stable code. -/
def code : RequestError → String
  | store e => e.code
  | index e => e.code
  | rules e => e.code
  | denied .. => "ACCESS_DENIED"
  | settings _ => "CONFIG_ERROR"

/-- The status in the manner of HTTP. -/
def status : RequestError → Nat
  | store (.notFound ..) => 404
  | store e => if e.isConflict then 409 else 400
  | index (.indexNotFound _) => 404
  | index (.indexExists _) => 409
  | index _ => 400
  | denied .. => 403
  | rules _ => 500
  | settings _ => 500

/-- The text, if the error has one of its own. -/
def message? : RequestError → Option String
  | store e => some e.message
  | index e => some e.message
  | rules e => e.message?
  | denied kind path refusal =>
      some (kind.name ++ " on " ++ path ++ " denied: " ++ refusal.message)
  | settings fault => fault.message?.map fun m => "invalid configuration: " ++ m

/-- Whether the caller should read again and retry; told of errors of the store. -/
def conflict? : RequestError → Option Bool
  | store e => some e.isConflict
  | _ => none

/-- The definition that would serve a query that was refused. -/
def suggested? : RequestError → Option IndexDefinition
  | index e => e.suggested?
  | _ => none

end RequestError
end DocumentStore
