import DocumentStore.Access.RuleSet
import DocumentStore.Cache
import DocumentStore.Settings

/-!
# Deciding requests

The rules found for a path are tried in order.  The first one that governs the
kind of access and whose condition holds allows the request; all else is
denied.  A decision for which nothing was read but the caller, the tenant and
the path may be kept and used again for the same kind of access.
-/

namespace DocumentStore

/-- Why the rules deny a request. -/
inductive Denial where
  | badPath (path : String)
  | noMatch
  | noneAllows (kind : AccessKind)
  | noneGoverns (kind : AccessKind)
deriving DecidableEq, Repr

/-- The reason in words. -/
def Denial.message : Denial → String
  | badPath path => "'" ++ path ++ "' is not a valid path"
  | noMatch => "no rule matches this path"
  | noneAllows kind => "no rule allows " ++ kind.name ++ " on this path"
  | noneGoverns kind => "no rule governs " ++ kind.name ++ " on this path"

/-- A decision: allowed by a rule, or denied. -/
inductive Decision where
  | allow (rule : String)
  | deny (reason : Denial)
deriving DecidableEq, Repr

namespace Decision

/-- Whether the request may go on. -/
def allowed : Decision → Bool
  | allow _ => true
  | deny _ => false

/-- The rule that allows the request. -/
def rule? : Decision → Option String
  | allow rule => some rule
  | deny _ => none

/-- The reason in words. -/
def reason : Decision → String
  | allow rule => "allowed by rule '" ++ rule ++ "'"
  | deny denial => denial.message

end Decision

/-- A decision with the paths asked about, and whether it may be used again. -/
structure Ruling where
  decision : Decision
  asked : List String
  reusable : Bool
deriving DecidableEq

/-- Whether a value means that a condition holds. -/
def holds (value : Option Json) : Bool :=
  value = some (.bool true)

/-- Try rules in order; `governed` tells whether one before them governs the access. -/
def tryRules
    (ctx : AccessContext)
    (bindings : Bindings)
    (kind : AccessKind) :
    (governed : Bool) → List Rule → Ruling
  | governed, [] =>
      ⟨.deny (if governed then .noneAllows kind else .noneGoverns kind), [], true⟩
  | governed, rule :: rest =>
      if rule.governs kind then
        let r := rule.condition.eval ctx bindings
        if holds r.value then
          ⟨.allow rule.name, r.asked, r.reusable⟩
        else
          let s := tryRules ctx bindings kind true rest
          ⟨s.decision, r.asked ++ s.asked, r.reusable && s.reusable⟩
      else
        tryRules ctx bindings kind governed rest

/-- Decide on the segments of a path. -/
def RuleSet.decide
    (set : RuleSet)
    (kind : AccessKind)
    (segments : List String)
    (ctx : AccessContext) :
    Ruling :=
  match set.router.route? segments with
  | none => ⟨.deny .noMatch, [], true⟩
  | some (bindings, rules) => tryRules ctx bindings kind false rules

/-- What a decision may depend on when it is used again. -/
structure DecisionKey where
  kind : AccessKind
  path : String
  tenant : Option String
  caller : String
deriving DecidableEq

/-- A rule set with the decisions it has kept, if it keeps any. -/
structure Guard where
  rules : RuleSet
  decisions : Option (Cache DecisionKey Decision)

namespace Guard

/-- How many instants a second has. -/
def instantsPerSecond : Nat := 1000

/-- A guard that has decided nothing. -/
def new
    (rules : RuleSet)
    (settings : RuleSettings) :
    Guard where
  rules
  decisions :=
    if settings.cacheEnabled then
      some (Cache.new settings.cacheCapacity.toNat
        (settings.cacheTtlSecs.toNat * instantsPerSecond))
    else
      none

/-- The segments of a path without its outer slashes; none if one is empty. -/
def segments? (path : String) : Option (List String) :=
  let segments := Text.pieces '/' (withoutOuterSlashes path)
  if segments.contains "" then none else some segments

/-- Decide a request, from what was kept if possible. -/
def evaluate
    (g : Guard)
    (instant : Nat)
    (kind : AccessKind)
    (path : String)
    (ctx : AccessContext) :
    Ruling × Guard :=
  match segments? path with
  | none => (⟨.deny (.badPath path), [], false⟩, g)
  | some segments =>
      match g.decisions with
      | none => (g.rules.decide kind segments ctx, g)
      | some cache =>
          let key : DecisionKey := ⟨kind, withoutOuterSlashes path, ctx.tenant, ctx.callerKey⟩
          match cache.get key instant with
          | (some decision, cache) =>
              (⟨decision, [], true⟩, { g with decisions := some cache })
          | (none, cache) =>
              let ruling := g.rules.decide kind segments ctx
              let cache :=
                if ruling.reusable then (cache.insert key ruling.decision instant).2 else cache
              (ruling, { g with decisions := some cache })

/-- Drop the expired decisions and count them. -/
def sweep
    (g : Guard)
    (instant : Nat) :
    Nat × Guard :=
  match g.decisions with
  | none => (0, g)
  | some cache =>
      let (dropped, cache) := cache.sweep instant
      (dropped, { g with decisions := some cache })

/-- Forget all decisions. -/
def clear (g : Guard) : Guard :=
  { g with decisions := g.decisions.map Cache.clear }

/-- What became of kept decisions so far. -/
def stats (g : Guard) : CacheStats :=
  match g.decisions with
  | none => CacheStats.zero
  | some cache => cache.stats

/-- The number of kept decisions. -/
def keptDecisions (g : Guard) : Nat :=
  match g.decisions with
  | none => 0
  | some cache => cache.size

end Guard
end DocumentStore
