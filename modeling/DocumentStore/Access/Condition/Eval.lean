import DocumentStore.Access.Condition.Basic
import DocumentStore.Access.Condition.Value

/-!
# Evaluating conditions

The value of a condition may be undefined, and it never fails otherwise.
Evaluation goes from left to right and stops as soon as the value is known or
undefined.  Beside the value it notes the paths it asked about, and whether
everything it read is the same for every request of the same caller, tenant
and path; only then may the decision be used again.
-/

namespace DocumentStore

/-- What evaluation found. -/
structure Reading where
  /-- The value; none if it is undefined. -/
  value : Option Json
  /-- The paths asked about, in order. -/
  asked : List String
  /-- Whether only the caller, the tenant and the path were read. -/
  reusable : Bool
deriving DecidableEq

namespace Reading

/-- A value that was read from nothing but caller, tenant and path. -/
def fixed (value : Option Json) : Reading :=
  ⟨value, [], true⟩

/-- A value that other requests may not find. -/
def passing (value : Option Json) : Reading :=
  ⟨value, [], false⟩

/-- Go on with a value if there is one. -/
def andThen
    (r : Reading)
    (next : Json → Reading) :
    Reading :=
  match r.value with
  | none => r
  | some v =>
      let s := next v
      ⟨s.value, r.asked ++ s.asked, r.reusable && s.reusable⟩

end Reading

/-- The values of the variables of a rule's pattern. -/
abbrev Bindings := List (String × String)

namespace Condition

/-- What conditions see of a document. -/
def resourceView (d : Document) : Json :=
  .object
    [("data", d.data),
     ("id", .string d.id),
     ("path", .string d.path.text),
     ("version", .ofNat d.version)]

/-- What conditions see of a request. -/
def requestView (ctx : AccessContext) : Json :=
  .object
    [("data", ctx.payload.getD .null),
     ("tenant", Json.ofOption .string ctx.tenant)]

/-- The value under a list of names, null if there is none. -/
def descend
    (base : Json)
    (names : List String) :
    Json :=
  (base.walk? names).getD .null

/-- The value of a variable. -/
def valueOf
    (ctx : AccessContext)
    (bindings : Bindings)
    (root : String)
    (names : List String) :
    Reading :=
  if root = "auth" then
    match ctx.caller with
    | some claims => .fixed (descend claims.toJson names)
    | none => .fixed (some .null)
  else if root = "resource" then
    match ctx.resource with
    | some doc => .passing (descend (resourceView doc) names)
    | none => .passing (some .null)
  else if root = "request" then
    if names = ["tenant"] then
      .fixed (Json.ofOption .string ctx.tenant)
    else
      .passing (descend (requestView ctx) names)
  else
    match bindings.lookup root with
    | some value => .fixed (descend (.string value) names)
    | none => .fixed (some .null)

/-- The truth of a comparison; undefined if the values have no order that it needs. -/
def compareValues? : CompareOp → Json → Json → Option Bool
  | .eq, a, b => some (a.equals b)
  | .ne, a, b => some !(a.equals b)
  | .lt, a, b => (a.order? b).map (· == .lt)
  | .le, a, b => (a.order? b).map (· != .gt)
  | .gt, a, b => (a.order? b).map (· == .gt)
  | .ge, a, b => (a.order? b).map (· != .lt)

/-- A truth value as the result of evaluation; anything else is undefined. -/
def truth : Json → Reading
  | .bool b => .fixed (some (.bool b))
  | _ => .fixed none

mutual

/-- Evaluate a condition. -/
def eval
    (ctx : AccessContext)
    (bindings : Bindings) :
    Condition → Reading
  | literal value => .fixed (some value)
  | list items =>
      (evalAll ctx bindings items).andThen fun values => .fixed (some values)
  | var root names => valueOf ctx bindings root names
  | not inner =>
      (eval ctx bindings inner).andThen fun
        | .bool b => .fixed (some (.bool !b))
        | _ => .fixed none
  | and left right =>
      (eval ctx bindings left).andThen fun
        | .bool true => (eval ctx bindings right).andThen truth
        | .bool false => .fixed (some (.bool false))
        | _ => .fixed none
  | or left right =>
      (eval ctx bindings left).andThen fun
        | .bool true => .fixed (some (.bool true))
        | .bool false => (eval ctx bindings right).andThen truth
        | _ => .fixed none
  | compare op left right =>
      (eval ctx bindings left).andThen fun a =>
        (eval ctx bindings right).andThen fun b =>
          .fixed ((compareValues? op a b).map .bool)
  | isIn needle haystack =>
      (eval ctx bindings needle).andThen fun a =>
        (eval ctx bindings haystack).andThen fun b =>
          .fixed ((Json.isIn? a b).map .bool)
  | add left right =>
      (eval ctx bindings left).andThen fun a =>
        (eval ctx bindings right).andThen fun b =>
          .fixed (Json.add? a b)
  | call builtin args =>
      let r :=
        (evalAll ctx bindings args).andThen fun
          | .array values =>
              ⟨builtin.call? ctx values, builtin.asked ctx values, true⟩
          | _ => .fixed none
      { r with reusable := r.reusable && !builtin.readsStore }

/-- Evaluate conditions one after the other to the list of their values. -/
def evalAll
    (ctx : AccessContext)
    (bindings : Bindings) :
    List Condition → Reading
  | [] => .fixed (some (.array []))
  | item :: rest =>
      (eval ctx bindings item).andThen fun value =>
        (evalAll ctx bindings rest).andThen fun
          | .array values => .fixed (some (.array (value :: values)))
          | _ => .fixed none

end

end Condition
end DocumentStore
