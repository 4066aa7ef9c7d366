import DocumentStore.Query.Plan
import DocumentStore.Store.Basic

/-!
# Answering queries

A plan is carried out on the store: the keys in its window are read in order,
those that meet its conditions lead to documents of its tenant, and the first
ones up to the limit are the answer.
-/

namespace DocumentStore
namespace Store

/-- The first items up to a limit. -/
def takeUpTo
    {α : Type}
    (limit : Option UInt64)
    (items : List α) :
    List α :=
  match limit with
  | none => items
  | some n => items.take n.toNat

/-- Plan a query with the indexes of the store. -/
def plan
    (s : Store)
    (spec : QuerySpec) :
    Except IndexError Plan :=
  Plan.ofSpec spec s.catalog.definitions s.catalog.tenantField

/-- The documents that a plan leads to. -/
def runPlan
    (s : Store)
    (plan : Plan) :
    Except IndexError (List Document) :=
  if plan.unsatisfiable then .ok []
  else
    match s.catalog.indexes.get? plan.index with
    | none => .error (.indexNotFound plan.index)
    | some index =>
        let scanned := index.tree.scan plan.window.start plan.window.lower plan.window.upper
        let admitted := scanned.filter fun e => plan.admits e.1
        let found := admitted.filterMap fun e => s.find? plan.tenant e.2
        .ok (takeUpTo plan.limit found)

/-- The documents that a query asks for. -/
def query
    (s : Store)
    (spec : QuerySpec) :
    Except IndexError (List Document) :=
  match s.plan spec with
  | .error e => .error e
  | .ok plan => s.runPlan plan

end Store
end DocumentStore
