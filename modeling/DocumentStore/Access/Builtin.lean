import DocumentStore.Access.Context

/-!
# Functions that conditions may call

Their names and their numbers of arguments are fixed.  Only `exists` looks
beyond the caller, and it notes the path it was asked about.
-/

namespace DocumentStore

/-- A function that conditions may call. -/
inductive Builtin where
  | isSignedIn
  | hasRole
  | hasAnyRole
  | callerTenant
  | exists
  | size
deriving DecidableEq, Repr

namespace Builtin

/-- The function of a name. -/
def resolve? (name : String) : Option Builtin :=
  match name with
  | "isSignedIn" => some isSignedIn
  | "hasRole" => some hasRole
  | "hasAnyRole" => some hasAnyRole
  | "callerTenant" => some callerTenant
  | "exists" => some Builtin.exists
  | "size" => some size
  | _ => none

/-- The name in conditions. -/
def name : Builtin → String
  | isSignedIn => "isSignedIn"
  | hasRole => "hasRole"
  | hasAnyRole => "hasAnyRole"
  | callerTenant => "callerTenant"
  | Builtin.exists => "exists"
  | size => "size"

/-- The number of arguments. -/
def arity : Builtin → Nat
  | isSignedIn | callerTenant => 0
  | hasRole | hasAnyRole | Builtin.exists | size => 1

/-- Whether the result depends on other documents. -/
def readsStore (b : Builtin) : Bool :=
  b = Builtin.exists

/-- The number of items, members or characters of a value. -/
def sizeOf? : Json → Option Nat
  | .array items => some items.length
  | .object members => some members.length
  | .string s => some s.length
  | _ => none

/-- Whether a value is the name of a role of the caller. -/
def isRoleOf
    (caller : Option Claims) :
    Json → Bool
  | .string role => caller.any fun c => c.hasRole role
  | _ => false

/-- The paths that a call asks about. -/
def asked
    (ctx : AccessContext) :
    Builtin → List Json → List String
  | Builtin.exists, [.string path] => if ctx.lookup.isSome then [path] else []
  | _, _ => []

/-- The result of a call; none if the arguments do not fit. -/
def call?
    (ctx : AccessContext) :
    Builtin → List Json → Option Json
  | isSignedIn, [] => some (.bool ctx.caller.isSome)
  | hasRole, [.string role] => some (.bool (ctx.caller.any fun c => c.hasRole role))
  | hasAnyRole, [.array roles] => some (.bool (roles.any (isRoleOf ctx.caller)))
  | callerTenant, [] =>
      some (Json.ofOption .string (ctx.caller.bind Claims.tenant))
  | Builtin.exists, [.string path] => some (.bool (ctx.lookup.any fun known => known path))
  | size, [value] => (sizeOf? value).map .ofNat
  | _, _ => none

end Builtin
end DocumentStore
