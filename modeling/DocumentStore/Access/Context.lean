import DocumentStore.Access.Claims
import DocumentStore.Document

/-!
# What a condition may read

A condition is evaluated for a caller, who may be anonymous, on the document
that is stored at the path, with the payload of the request, in a tenant.  It
may ask whether there is a document at another path.
-/

namespace DocumentStore

/-- The circumstances in which a condition is evaluated. -/
structure AccessContext where
  caller : Option Claims
  resource : Option Document
  payload : Option Json
  tenant : Option String
  /-- Whether there is a document at a path; none if that cannot be asked. -/
  lookup : Option (String → Bool)

namespace AccessContext

/-- No caller, no document, no payload, no tenant, and no questions. -/
def empty : AccessContext := ⟨none, none, none, none, none⟩

/-- What stands for the caller in cached decisions. -/
def callerKey (ctx : AccessContext) : String :=
  match ctx.caller with
  | some claims => claims.fingerprint
  | none => "anonymous"

end AccessContext
end DocumentStore
