import DocumentStore.Digest.Sha256
import DocumentStore.Json.Printer
import DocumentStore.Json.Record

/-!
# Claims of a caller

What is known about a signed-in caller.  The fingerprint of the claims is the
hash of their compact JSON text and stands for the caller in cached decisions.
-/

namespace DocumentStore

/-- The claims of a caller. -/
structure Claims where
  uid : String
  tenant : Option String
  roles : List String
  email : Option String
  /-- Further claims by name. -/
  token : List (String × Json)
deriving DecidableEq

namespace Claims

/-- Whether the caller has a role. -/
def hasRole
    (c : Claims)
    (role : String) :
    Bool :=
  c.roles.contains role

/-- The written form. -/
def toJson (c : Claims) : Json :=
  .object
    [("email", Json.ofOption .string c.email),
     ("roles", .array (c.roles.map .string)),
     ("tenantId", Json.ofOption .string c.tenant),
     ("token", .object c.token),
     ("uid", .string c.uid)]

/-- The members of an object. -/
def asMembers? : Json → Option (List (String × Json))
  | .object members => some members
  | _ => none

/-- Claims from their written form. -/
def ofJson? (v : Json) : Option Claims := do
  match ← v.slots? .refused [["uid"], ["tenantId"], ["roles"], ["email"], ["token"]] with
  | [uid, tenant, roles, email, token] =>
      some
        { uid := ← Json.required Json.asString? uid
          tenant := ← Json.optional Json.asString? tenant
          roles := ← Json.withDefault [] (Json.asList? Json.asString?) roles
          email := ← Json.optional Json.asString? email
          token := ← Json.withDefault [] asMembers? token }
  | _ => none

/-- The text that stands for the claims before it is hashed. -/
def canonicalText (c : Claims) : List Char :=
  c.toJson.render

/-- The hash of the claims in hexadecimal. -/
def fingerprint (c : Claims) : String :=
  Digest.Sha256.hexDigest (c.canonicalText.flatMap String.utf8EncodeChar)

end Claims
end DocumentStore
