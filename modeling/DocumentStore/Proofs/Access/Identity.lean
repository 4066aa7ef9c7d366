import DocumentStore.Proofs.Access.Guard
import DocumentStore.Proofs.Json.Unambiguity

/-!
# Callers and their fingerprints

The text that stands for the claims of a caller before it is hashed tells all of
them, as long as no number among the further claims is a binary64 number.  The
bytes of the text tell the text, and the digits of a hash tell the hash.  So when
cached decisions do not tell two callers apart, either the callers are the same
or two messages with one hash are at hand.  Who is not signed in is never taken
for a caller who is, since the key for the anonymous is not the text of a hash.
-/

namespace DocumentStore

/-! ### Digits and bytes -/

namespace Text

theorem hexValue?_hexDigit (n : Nat) :
    hexValue? (hexDigit n) = some (n % 16) := by
  have hall : ∀ d < 16, hexValue? (hexDigits.getD d '0') = some d := by decide
  exact hall (n % 16) (Nat.mod_lt n (by decide))

/-- Written digits have the value of the number, as far as it fits into them. -/
theorem digitsValue_hexPadded
    (width n : Nat) :
    digitsValue 16 (hexPadded width n) = n % Nat.pow 16 width := by
  induction width generalizing n with
  | zero =>
      exact (Nat.mod_one n).symm
  | succ width ih =>
      have hdigits : digitsValue 16 (hexPadded (width + 1) n) =
          digitsValue 16 (hexPadded width (n / 16)) * 16 + n % 16 := by
        unfold digitsValue
        rw [hexPadded, List.foldl_append, List.foldl_cons, List.foldl_nil, hexValue?_hexDigit,
          Option.getD_some]
      have hpow : Nat.pow 16 (width + 1) = 16 * Nat.pow 16 width := Nat.mul_comm _ _
      rw [hdigits, ih, hpow, Nat.mod_mul, Nat.mul_comm, Nat.add_comm]

theorem hexPadded_inj
    {width m n : Nat}
    (hm : m < Nat.pow 16 width)
    (hn : n < Nat.pow 16 width)
    (h : hexPadded width m = hexPadded width n) :
    m = n := by
  have hvalue := congrArg (digitsValue 16) h
  rwa [digitsValue_hexPadded, digitsValue_hexPadded, Nat.mod_eq_of_lt hm,
    Nat.mod_eq_of_lt hn] at hvalue

theorem mem_hexDigits_of_mem_hexPadded
    {width n : Nat}
    {c : Char}
    (h : c ∈ hexPadded width n) :
    c ∈ hexDigits := by
  induction width generalizing n with
  | zero =>
      cases h
  | succ width ih =>
      rw [hexPadded, List.mem_append, List.mem_singleton] at h
      rcases h with h | rfl
      · exact ih h
      · have hall : ∀ d < 16, hexDigits.getD d '0' ∈ hexDigits := by decide
        exact hall (n % 16) (Nat.mod_lt n (by decide))

theorem flatMap_utf8EncodeChar_inj
    {cs ds : List Char}
    (h : cs.flatMap String.utf8EncodeChar = ds.flatMap String.utf8EncodeChar) :
    cs = ds := by
  have hbytes : (String.ofList cs).toByteArray = (String.ofList ds).toByteArray := by
    rw [String.toByteArray_ofList, String.toByteArray_ofList, List.utf8Encode, List.utf8Encode, h]
  exact String.ofList_injective (String.toByteArray_inj.1 hbytes)

end Text

namespace Digest.Sha256

/-- The sixty-four lower-case hexadecimal digits of a hash. -/
def IsHexDigest (s : String) : Prop :=
  s.length = 64 ∧ ∀ c ∈ s.toList, c ∈ Text.hexDigits

instance (s : String) : Decidable (IsHexDigest s) :=
  inferInstanceAs (Decidable (_ ∧ _))

theorem isHexDigest_hexDigest (message : List UInt8) :
    IsHexDigest (hexDigest message) := by
  refine ⟨length_hexDigest message, fun c hc => ?_⟩
  rw [hexDigest, String.toList_ofList] at hc
  obtain ⟨w, -, hc⟩ := List.mem_flatMap.1 hc
  exact Text.mem_hexDigits_of_mem_hexPadded hc

/-- Words are known by their digits. -/
theorem flatMap_hexPadded_inj
    {us vs : List UInt32}
    (hlength : us.length = vs.length)
    (h : us.flatMap (fun w => Text.hexPadded 8 w.toNat) =
      vs.flatMap fun w => Text.hexPadded 8 w.toNat) :
    us = vs := by
  induction us generalizing vs with
  | nil =>
      exact (List.length_eq_zero_iff.1 hlength.symm).symm
  | cons u us ih =>
      cases vs with
      | nil =>
          cases hlength
      | cons v vs =>
          rw [List.flatMap_cons, List.flatMap_cons] at h
          obtain ⟨hfirst, hrest⟩ := List.append_inj h (by rw [Text.length_hexPadded,
            Text.length_hexPadded])
          have huv := Text.hexPadded_inj u.toNat_lt v.toNat_lt hfirst
          rw [UInt32.toNat_inj.1 huv, ih (Nat.succ.inj hlength) hrest]

theorem words_inj
    (s t : State)
    (h : [s.a, s.b, s.c, s.d, s.e, s.f, s.g, s.h] = [t.a, t.b, t.c, t.d, t.e, t.f, t.g, t.h]) :
    s = t := by
  cases s
  cases t
  simpa using h

theorem hash_eq_of_hexDigest_eq
    {m n : List UInt8}
    (h : hexDigest m = hexDigest n) :
    hash m = hash n := by
  rw [hexDigest, hexDigest] at h
  exact words_inj _ _ (flatMap_hexPadded_inj rfl (String.ofList_injective h))

/-- Two messages with one hash. -/
def Collide (m n : List UInt8) : Prop :=
  m ≠ n ∧ hash m = hash n

end Digest.Sha256

/-! ### Claims -/

namespace Claims

/-- The message that is hashed for the claims. -/
def message (c : Claims) : List UInt8 :=
  c.canonicalText.flatMap String.utf8EncodeChar

/-- No number among the further claims is a binary64 number. -/
def TokenIntegersOnly (c : Claims) : Prop :=
  Json.MembersIntegersOnly c.token

theorem integersOnly_ofOption_string (s : Option String) :
    (Json.ofOption .string s).IntegersOnly := by
  cases s <;> simp [Json.ofOption, Json.IntegersOnly]

theorem itemsIntegersOnly_map_string (strings : List String) :
    Json.ItemsIntegersOnly (strings.map .string) := by
  induction strings with
  | nil =>
      simp [Json.ItemsIntegersOnly]
  | cons s rest ih =>
      rw [List.map_cons, Json.ItemsIntegersOnly]
      exact ⟨by simp [Json.IntegersOnly], ih⟩

theorem integersOnly_toJson
    {c : Claims}
    (h : c.TokenIntegersOnly) :
    c.toJson.IntegersOnly := by
  simp only [toJson, Json.IntegersOnly, Json.MembersIntegersOnly, and_true]
  exact ⟨integersOnly_ofOption_string _, itemsIntegersOnly_map_string _,
    integersOnly_ofOption_string _, h⟩

theorem ofOption_string_inj
    {s t : Option String}
    (h : Json.ofOption .string s = Json.ofOption .string t) :
    s = t := by
  cases s <;> cases t <;> simp_all [Json.ofOption]

/-- Claims are known by their written form. -/
theorem toJson_inj
    {a b : Claims}
    (h : a.toJson = b.toJson) :
    a = b := by
  obtain ⟨uid, tenant, roles, email, token⟩ := a
  obtain ⟨uid', tenant', roles', email', token'⟩ := b
  simp only [toJson, Json.object.injEq, List.cons.injEq, Prod.mk.injEq, Json.array.injEq,
    Json.string.injEq, true_and, and_true] at h
  obtain ⟨hemail, hroles, htenant, rfl, rfl⟩ := h
  rw [ofOption_string_inj hemail, (List.map_inj_right fun _ _ => Json.string.inj).1 hroles,
    ofOption_string_inj htenant]

theorem canonicalText_inj
    {a b : Claims}
    (ha : a.TokenIntegersOnly)
    (hb : b.TokenIntegersOnly)
    (h : a.canonicalText = b.canonicalText) :
    a = b :=
  toJson_inj (Json.render_inj (integersOnly_toJson ha) (integersOnly_toJson hb) h)

/-- Claims with one fingerprint are the same, or their messages collide. -/
theorem eq_or_collide_of_fingerprint_eq
    {a b : Claims}
    (ha : a.TokenIntegersOnly)
    (hb : b.TokenIntegersOnly)
    (h : a.fingerprint = b.fingerprint) :
    a = b ∨ Digest.Sha256.Collide a.message b.message := by
  by_cases hmessage : a.message = b.message
  · exact .inl (canonicalText_inj ha hb (Text.flatMap_utf8EncodeChar_inj hmessage))
  · exact .inr ⟨hmessage, Digest.Sha256.hash_eq_of_hexDigest_eq h⟩

end Claims

namespace AccessContext

theorem not_isHexDigest_callerKey
    {ctx : AccessContext}
    (h : ctx.caller = none) :
    ¬ Digest.Sha256.IsHexDigest ctx.callerKey := by
  rw [callerKey, h]
  decide

theorem isHexDigest_callerKey
    {ctx : AccessContext}
    {claims : Claims}
    (h : ctx.caller = some claims) :
    Digest.Sha256.IsHexDigest ctx.callerKey := by
  rw [callerKey, h]
  exact Digest.Sha256.isHexDigest_hexDigest _

/--
Different callers have different keys.  The text that is hashed for claims
without binary64 numbers tells all of them.  The key of the anonymous is not the
text of a hash, as that of every other caller is.  So if a decision that was
kept for one request is found for another one, the two have the same caller, or
what was hashed for their callers collides.
-/
theorem same_caller_or_collision :
    (∀ a b : Claims, a.TokenIntegersOnly → b.TokenIntegersOnly →
      a.canonicalText = b.canonicalText → a = b) ∧
    (∀ ctx : AccessContext, Digest.Sha256.IsHexDigest ctx.callerKey ↔ ctx.caller ≠ none) ∧
    (∀ (kind kind' : AccessKind) (path path' : String) (ctx ctx' : AccessContext),
      (∀ claims ∈ ctx.caller, claims.TokenIntegersOnly) →
      (∀ claims ∈ ctx'.caller, claims.TokenIntegersOnly) →
      Guard.keyOf kind path ctx = Guard.keyOf kind' path' ctx' →
      ctx.caller = ctx'.caller ∨
        ∃ a b, ctx.caller = some a ∧ ctx'.caller = some b ∧
          Digest.Sha256.Collide a.message b.message) := by
  have hdigest : ∀ ctx : AccessContext,
      Digest.Sha256.IsHexDigest ctx.callerKey ↔ ctx.caller ≠ none := by
    intro ctx
    constructor
    · exact fun h hnone => not_isHexDigest_callerKey hnone h
    · intro h
      obtain ⟨claims, hclaims⟩ := Option.ne_none_iff_exists'.1 h
      exact isHexDigest_callerKey hclaims
  refine ⟨fun a b => Claims.canonicalText_inj, hdigest, ?_⟩
  intro kind kind' path path' ctx ctx' hctx hctx' hkey
  have hcaller : ctx.callerKey = ctx'.callerKey := congrArg DecisionKey.caller hkey
  cases ha : ctx.caller with
  | none =>
      have hnot := not_isHexDigest_callerKey ha
      rw [hcaller, hdigest, not_not] at hnot
      exact .inl hnot.symm
  | some a =>
      have hhash := isHexDigest_callerKey ha
      rw [hcaller, hdigest] at hhash
      obtain ⟨b, hb⟩ := Option.ne_none_iff_exists'.1 hhash
      rw [callerKey, callerKey, ha, hb] at hcaller
      rcases Claims.eq_or_collide_of_fingerprint_eq (hctx a ha) (hctx' b hb) hcaller with
        rfl | hcollide
      · exact .inl hb.symm
      · exact .inr ⟨a, b, rfl, hb, hcollide⟩

/-- A caller whose name looks like the rest of the written claims of another one. -/
def impostor : Claims := ⟨"ada\",\"tenantId\":\"acme", none, [], none, [("age", .number (.integer 7))]⟩

/-- The text that is hashed for a caller is not that for one with a misleading name. -/
theorem impostor_has_other_text :
    Guard.ada.TokenIntegersOnly ∧ impostor.TokenIntegersOnly ∧
      Guard.ada.canonicalText ≠ impostor.canonicalText ∧
      ¬ Digest.Sha256.IsHexDigest (Guard.visitor none).callerKey := by
  have hada : Guard.ada.TokenIntegersOnly := by
    simp [Guard.ada, Claims.TokenIntegersOnly, Json.MembersIntegersOnly]
  have himpostor : impostor.TokenIntegersOnly := by
    simp [impostor, Claims.TokenIntegersOnly, Json.MembersIntegersOnly, Json.IntegersOnly]
  obtain ⟨htext, hdigest, -⟩ := same_caller_or_collision
  refine ⟨hada, himpostor, fun h => ?_, fun h => (hdigest _).1 h rfl⟩
  exact absurd (htext _ _ hada himpostor h) (by decide)

end AccessContext
end DocumentStore
