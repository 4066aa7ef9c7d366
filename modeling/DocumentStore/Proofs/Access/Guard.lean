import DocumentStore.Proofs.Access.Reuse
import DocumentStore.Proofs.Cache

/-!
# The decision cache cannot be seen

A guard that keeps decisions rules on every request as one that keeps none.
What carries the proof is an invariant of the guard: every kept decision was
reached for the caller, the tenant and the path in its key, by a ruling that
only depends on these.  The key has a fingerprint in place of the caller, so
the callers must be told apart by their fingerprints.
-/

namespace DocumentStore

theorem Text.length_hexPadded
    (width n : Nat) :
    (hexPadded width n).length = width := by
  induction width generalizing n with
  | zero =>
      rfl
  | succ width ih =>
      rw [hexPadded, List.length_append, ih]
      rfl

theorem Digest.Sha256.length_hexDigest (message : List UInt8) :
    (hexDigest message).length = 64 := by
  simp [hexDigest, Text.length_hexPadded]

/-- The fingerprints of some claims tell them apart. -/
def Claims.ToldApart (known : List Claims) : Prop :=
  ∀ a ∈ known, ∀ b ∈ known, a.fingerprint = b.fingerprint → a = b

/-- Equal keys stand for equal callers; no fingerprint is the key of an anonymous caller. -/
theorem AccessContext.caller_eq_of_callerKey_eq
    {known : List Claims}
    {ctx other : AccessContext}
    (hknown : Claims.ToldApart known)
    (hctx : ∀ claims ∈ ctx.caller, claims ∈ known)
    (hother : ∀ claims ∈ other.caller, claims ∈ known)
    (h : other.callerKey = ctx.callerKey) :
    other.caller = ctx.caller := by
  have hlength : ∀ claims : Claims, claims.fingerprint ≠ "anonymous" := by
    intro claims heq
    have h64 := Digest.Sha256.length_hexDigest
      (claims.canonicalText.flatMap String.utf8EncodeChar)
    change claims.fingerprint.length = 64 at h64
    rw [heq] at h64
    exact absurd h64 (by decide)
  unfold callerKey at h
  cases ha : ctx.caller with
  | none =>
      cases hb : other.caller with
      | none =>
          rfl
      | some b =>
          rw [ha, hb] at h
          exact absurd h (hlength b)
  | some a =>
      cases hb : other.caller with
      | none =>
          rw [ha, hb] at h
          exact absurd h.symm (hlength a)
      | some b =>
          rw [ha, hb] at h
          rw [hknown b (hother b hb) a (hctx a ha) h]

namespace Guard

/-- What can be asked of a guard. -/
inductive Request where
  | evaluate (kind : AccessKind) (path : String) (ctx : AccessContext)
  | sweep
  | clear

/-- The claims of the caller of a request, if it has a caller who is signed in. -/
def Request.caller? : Request → Option Claims
  | evaluate _ _ ctx => ctx.caller
  | sweep => none
  | clear => none

/-- The claims of the callers in a run. -/
def callers (run : List (Nat × Request)) : List Claims :=
  run.filterMap fun step => step.2.caller?

/-- Serve a request at an instant; the ruling is for an evaluation only. -/
def serve
    (g : Guard)
    (instant : Nat) :
    Request → Option Ruling × Guard
  | .evaluate kind path ctx =>
      (some (g.evaluate instant kind path ctx).1, (g.evaluate instant kind path ctx).2)
  | .sweep => (none, (g.sweep instant).2)
  | .clear => (none, g.clear)

/-- The rulings on requests served one after the other, each at its own instant. -/
def rulings :
    Guard → List (Nat × Request) → List Ruling
  | _, [] => []
  | g, (instant, request) :: rest =>
      (g.serve instant request).1.toList ++ rulings (g.serve instant request).2 rest

/-- The ruling on a request when no decision is kept. -/
def ruleAnew
    (rules : RuleSet)
    (kind : AccessKind)
    (path : String)
    (ctx : AccessContext) :
    Ruling :=
  match segments? path with
  | none => ⟨.deny (.badPath path), [], false⟩
  | some segments => rules.decide kind segments ctx

/-- What a kept decision is found under. -/
def keyOf
    (kind : AccessKind)
    (path : String)
    (ctx : AccessContext) :
    DecisionKey :=
  ⟨kind, withoutOuterSlashes path, ctx.tenant, ctx.callerKey⟩

/-- An entry was reached, for one of the known callers, by a ruling that may be used again. -/
def Earned
    (known : List Claims)
    (rules : RuleSet)
    (e : CacheEntry DecisionKey Decision) :
    Prop :=
  ∃ kind path ctx,
    e.key = keyOf kind path ctx ∧
      (∀ claims ∈ ctx.caller, claims ∈ known) ∧
      (ruleAnew rules kind path ctx).reusable = true ∧
      e.value = (ruleAnew rules kind path ctx).decision

theorem Earned.of_ruleAnew
    {known : List Claims}
    {rules : RuleSet}
    {kind : AccessKind}
    {path : String}
    {ctx : AccessContext}
    {ruling : Ruling}
    (hctx : ∀ claims ∈ ctx.caller, claims ∈ known)
    (hruling : ruleAnew rules kind path ctx = ruling)
    (h : ruling.reusable = true)
    (instant : Nat) :
    Earned known rules ⟨keyOf kind path ctx, ruling.decision, instant⟩ :=
  ⟨kind, path, ctx, rfl, hctx, by rw [hruling, h], by rw [hruling]⟩

/-- A guard with given rules whose kept decisions were all earned. -/
structure Faithful
    (known : List Claims)
    (rules : RuleSet)
    (g : Guard) :
    Prop where
  same : g.rules = rules
  earned : ∀ cache ∈ g.decisions, ∀ e ∈ cache.entries, Earned known rules e

/-- A guard with given rules whose kept decisions for some of the tenants were all earned. -/
structure FaithfulFor
    (served : Option String → Prop)
    (known : List Claims)
    (rules : RuleSet)
    (g : Guard) :
    Prop where
  same : g.rules = rules
  earned : ∀ cache ∈ g.decisions, ∀ e ∈ cache.entries, served e.key.tenant →
    Earned known rules e

theorem Faithful.faithfulFor
    {known : List Claims}
    {rules : RuleSet}
    {g : Guard}
    (h : Faithful known rules g)
    (served : Option String → Prop) :
    FaithfulFor served known rules g :=
  ⟨h.same, fun cache hcache e he _ => h.earned cache hcache e he⟩

theorem FaithfulFor.faithful
    {known : List Claims}
    {rules : RuleSet}
    {g : Guard}
    (h : FaithfulFor (fun _ => True) known rules g) :
    Faithful known rules g :=
  ⟨h.same, fun cache hcache e he => h.earned cache hcache e he trivial⟩

theorem segments?_of_withoutOuterSlashes_eq
    {path other : String}
    (h : withoutOuterSlashes other = withoutOuterSlashes path) :
    segments? other = segments? path := by
  unfold segments?
  rw [h]

/-- A reusable ruling is the ruling on every request with the same key. -/
theorem ruleAnew_of_keyOf_eq
    {known : List Claims}
    {rules : RuleSet}
    {kind kind' : AccessKind}
    {path path' : String}
    {ctx ctx' : AccessContext}
    (hknown : Claims.ToldApart known)
    (hctx : ∀ claims ∈ ctx.caller, claims ∈ known)
    (hctx' : ∀ claims ∈ ctx'.caller, claims ∈ known)
    (hkey : keyOf kind' path' ctx' = keyOf kind path ctx)
    (h : (ruleAnew rules kind path ctx).reusable = true) :
    (ruleAnew rules kind path ctx).asked = [] ∧
      ruleAnew rules kind' path' ctx' = ruleAnew rules kind path ctx := by
  simp only [keyOf, DecisionKey.mk.injEq] at hkey
  obtain ⟨rfl, hpath, htenant, hcaller⟩ := hkey
  have halike : ctx.Alike ctx' :=
    ⟨AccessContext.caller_eq_of_callerKey_eq hknown hctx hctx' hcaller, htenant⟩
  unfold ruleAnew at h ⊢
  rw [segments?_of_withoutOuterSlashes_eq hpath]
  cases hsegments : segments? path with
  | none =>
      rw [hsegments] at h
      cases h
  | some segments =>
      rw [hsegments] at h
      exact rules.decide_of_alike kind' segments halike h

/-- A guard that keeps nothing rules anew and stays as it is. -/
theorem evaluate_of_keeps_nothing
    {g : Guard}
    (h : g.decisions = none)
    (instant : Nat)
    (kind : AccessKind)
    (path : String)
    (ctx : AccessContext) :
    g.evaluate instant kind path ctx = (ruleAnew g.rules kind path ctx, g) := by
  unfold evaluate ruleAnew
  cases segments? path with
  | none =>
      rfl
  | some segments =>
      simp only [h]

theorem evaluate_of_bad_path
    {path : String}
    (h : segments? path = none)
    (g : Guard)
    (instant : Nat)
    (kind : AccessKind)
    (ctx : AccessContext) :
    g.evaluate instant kind path ctx = (ruleAnew g.rules kind path ctx, g) := by
  simp only [evaluate, ruleAnew, h]

/-- A kept decision that is found is the ruling. -/
theorem evaluate_of_found
    {g : Guard}
    {cache looked : Cache DecisionKey Decision}
    {instant : Nat}
    {kind : AccessKind}
    {path : String}
    {segments : List String}
    {ctx : AccessContext}
    {decision : Decision}
    (hcache : g.decisions = some cache)
    (hpath : segments? path = some segments)
    (hget : cache.get (keyOf kind path ctx) instant = (some decision, looked)) :
    g.evaluate instant kind path ctx =
      (⟨decision, [], true⟩, { g with decisions := some looked }) := by
  unfold keyOf at hget
  simp only [evaluate, hpath, hcache, hget]

/-- If no decision is found, the guard rules anew and may keep the decision. -/
theorem evaluate_of_not_found
    {g : Guard}
    {cache looked : Cache DecisionKey Decision}
    {instant : Nat}
    {kind : AccessKind}
    {path : String}
    {segments : List String}
    {ctx : AccessContext}
    (hcache : g.decisions = some cache)
    (hpath : segments? path = some segments)
    (hget : cache.get (keyOf kind path ctx) instant = (none, looked)) :
    g.evaluate instant kind path ctx =
      (ruleAnew g.rules kind path ctx,
        { g with
          decisions := some
            (if (ruleAnew g.rules kind path ctx).reusable then
              (looked.insert (keyOf kind path ctx)
                (ruleAnew g.rules kind path ctx).decision instant).2
            else
              looked) }) := by
  have hanew : ruleAnew g.rules kind path ctx = g.rules.decide kind segments ctx := by
    simp only [ruleAnew, hpath]
  rw [hanew]
  unfold keyOf at hget ⊢
  simp only [evaluate, hpath, hcache, hget]

variable {known : List Claims} {rules : RuleSet} {g : Guard}

section

variable {served : Option String → Prop}

/-- A guard that is faithful for a tenant rules for it as it would rule anew. -/
theorem FaithfulFor.evaluate_fst
    (hg : FaithfulFor served known rules g)
    (hknown : Claims.ToldApart known)
    (instant : Nat)
    (kind : AccessKind)
    (path : String)
    {ctx : AccessContext}
    (hserved : served ctx.tenant)
    (hctx : ∀ claims ∈ ctx.caller, claims ∈ known) :
    (g.evaluate instant kind path ctx).1 = ruleAnew rules kind path ctx := by
  obtain ⟨rfl, hearned⟩ := hg
  cases hcache : g.decisions with
  | none =>
      rw [evaluate_of_keeps_nothing hcache]
  | some cache =>
      cases hpath : segments? path with
      | none =>
          rw [evaluate_of_bad_path hpath]
      | some segments =>
          rcases hget : cache.get (keyOf kind path ctx) instant with ⟨found, looked⟩
          cases found with
          | none =>
              rw [evaluate_of_not_found hcache hpath hget]
          | some decision =>
              rw [evaluate_of_found hcache hpath hget]
              obtain ⟨e, he, hkey, hvalue⟩ :=
                Cache.exists_of_get_eq_some (congrArg Prod.fst hget)
              have htenant : served e.key.tenant := by
                rw [hkey]
                exact hserved
              obtain ⟨kind', path', ctx', hkey', hcaller, hreusable, hvalue'⟩ :=
                hearned cache hcache e he htenant
              obtain ⟨hasked, hsame⟩ := ruleAnew_of_keyOf_eq hknown hcaller hctx
                (hkey.symm.trans hkey') hreusable
              rw [hsame, ← hvalue, hvalue', ← hasked, ← hreusable]

/-- A guard stays faithful when it rules on a request, of a known caller if it is for a tenant served. -/
theorem FaithfulFor.evaluate_snd
    (hg : FaithfulFor served known rules g)
    (instant : Nat)
    (kind : AccessKind)
    (path : String)
    {ctx : AccessContext}
    (hctx : served ctx.tenant → ∀ claims ∈ ctx.caller, claims ∈ known) :
    FaithfulFor served known rules (g.evaluate instant kind path ctx).2 := by
  obtain ⟨rfl, hearned⟩ := hg
  cases hcache : g.decisions with
  | none =>
      rw [evaluate_of_keeps_nothing hcache]
      exact ⟨rfl, hearned⟩
  | some cache =>
      cases hpath : segments? path with
      | none =>
          rw [evaluate_of_bad_path hpath]
          exact ⟨rfl, hearned⟩
      | some segments =>
          rcases hget : cache.get (keyOf kind path ctx) instant with ⟨found, looked⟩
          have hlooked : ∀ e ∈ looked.entries, served e.key.tenant → Earned known g.rules e := by
            have hsnd : (cache.get (keyOf kind path ctx) instant).2 = looked :=
              congrArg Prod.snd hget
            intro e he
            rw [← hsnd] at he
            exact hearned cache hcache e (Cache.mem_of_mem_get he)
          cases found with
          | some decision =>
              rw [evaluate_of_found hcache hpath hget]
              refine ⟨rfl, ?_⟩
              rintro _ ⟨⟩
              exact hlooked
          | none =>
              rw [evaluate_of_not_found hcache hpath hget]
              refine ⟨rfl, ?_⟩
              intro kept hkept e he hserved
              rw [← Option.some.inj hkept] at he
              split at he
              · next hreusable =>
                  rcases Cache.mem_of_mem_insert he with rfl | hold
                  · exact .of_ruleAnew (hctx hserved) rfl hreusable instant
                  · exact hlooked e hold hserved
              · exact hlooked e he hserved

/-- A guard stays faithful when it drops the expired decisions. -/
theorem FaithfulFor.sweep
    (hg : FaithfulFor served known rules g)
    (instant : Nat) :
    FaithfulFor served known rules (g.sweep instant).2 := by
  obtain ⟨rfl, hearned⟩ := hg
  unfold Guard.sweep
  cases hcache : g.decisions with
  | none =>
      exact ⟨rfl, hearned⟩
  | some cache =>
      refine ⟨rfl, ?_⟩
      rintro _ ⟨⟩ e he
      exact hearned cache hcache e (Cache.mem_of_mem_sweep he)

/-- A guard that has decided nothing is faithful. -/
theorem FaithfulFor.new
    (served : Option String → Prop)
    (known : List Claims)
    (rules : RuleSet)
    (settings : RuleSettings) :
    FaithfulFor served known rules (Guard.new rules settings) := by
  refine ⟨rfl, ?_⟩
  intro cache hcache e he
  unfold Guard.new at hcache
  split at hcache
  · cases hcache
    cases he
  · cases hcache

end

/-- A faithful guard rules as it would rule anew. -/
theorem Faithful.evaluate_fst
    (hg : Faithful known rules g)
    (hknown : Claims.ToldApart known)
    (instant : Nat)
    (kind : AccessKind)
    (path : String)
    {ctx : AccessContext}
    (hctx : ∀ claims ∈ ctx.caller, claims ∈ known) :
    (g.evaluate instant kind path ctx).1 = ruleAnew rules kind path ctx :=
  (hg.faithfulFor fun _ => True).evaluate_fst hknown instant kind path trivial hctx

/-- A guard stays faithful when it rules on a request of a known caller. -/
theorem Faithful.evaluate_snd
    (hg : Faithful known rules g)
    (instant : Nat)
    (kind : AccessKind)
    (path : String)
    {ctx : AccessContext}
    (hctx : ∀ claims ∈ ctx.caller, claims ∈ known) :
    Faithful known rules (g.evaluate instant kind path ctx).2 :=
  ((hg.faithfulFor _).evaluate_snd instant kind path fun _ => hctx).faithful

theorem Faithful.sweep
    (hg : Faithful known rules g)
    (instant : Nat) :
    Faithful known rules (g.sweep instant).2 :=
  ((hg.faithfulFor _).sweep instant).faithful

theorem Faithful.clear (hg : Faithful known rules g) :
    Faithful known rules g.clear := by
  refine ⟨hg.same, ?_⟩
  intro cache hcache e he
  obtain ⟨old, -, rfl⟩ := Option.map_eq_some_iff.1 hcache
  cases he

theorem Faithful.new
    (known : List Claims)
    (rules : RuleSet)
    (settings : RuleSettings) :
    Faithful known rules (Guard.new rules settings) :=
  (FaithfulFor.new ..).faithful

/-- The ruling on a request when no decision is kept; there is none on maintenance. -/
def Request.anew
    (rules : RuleSet) :
    Request → Option Ruling
  | .evaluate kind path ctx => some (ruleAnew rules kind path ctx)
  | .sweep => none
  | .clear => none

/-- Serving a request of a known caller gives the ruling anew, and the guard stays faithful. -/
theorem Faithful.serve
    (hg : Faithful known rules g)
    (hknown : Claims.ToldApart known)
    (instant : Nat)
    {request : Request}
    (hcaller : ∀ claims ∈ request.caller?, claims ∈ known) :
    (g.serve instant request).1 = request.anew rules ∧
      Faithful known rules (g.serve instant request).2 := by
  cases request with
  | evaluate kind path ctx =>
      have hruling := hg.evaluate_fst hknown instant kind path hcaller
      have hnext := hg.evaluate_snd instant kind path hcaller
      simp only [Guard.serve, Request.anew, hruling]
      exact ⟨trivial, hnext⟩
  | sweep =>
      exact ⟨rfl, hg.sweep instant⟩
  | clear =>
      exact ⟨rfl, hg.clear⟩

/-- A faithful guard rules on every request of a run as it would rule anew. -/
theorem Faithful.rulings
    (hg : Faithful known rules g)
    (hknown : Claims.ToldApart known)
    {run : List (Nat × Request)}
    (hrun : ∀ claims ∈ callers run, claims ∈ known) :
    g.rulings run = run.filterMap fun step => step.2.anew rules := by
  induction run generalizing g with
  | nil =>
      rfl
  | cons step rest ih =>
      obtain ⟨instant, request⟩ := step
      have hcaller : ∀ claims ∈ request.caller?, claims ∈ known := by
        intro claims h
        exact hrun claims (List.mem_filterMap.2 ⟨_, List.mem_cons_self, h⟩)
      obtain ⟨hanew, hnext⟩ := hg.serve hknown instant hcaller
      have hrest : ∀ claims ∈ callers rest, claims ∈ known := by
        intro claims h
        obtain ⟨later, hmem, hlater⟩ := List.mem_filterMap.1 h
        exact hrun claims (List.mem_filterMap.2 ⟨later, List.mem_cons_of_mem _ hmem, hlater⟩)
      rw [Guard.rulings, hanew, ih hnext hrest, List.filterMap_cons]
      cases request.anew rules <;> rfl

/--
The decision cache cannot be seen: whatever its capacity and lifetime, a guard
that keeps decisions gives the same rulings as one that keeps none, on every
run of evaluations, sweeps and clearings at any instants, provided that the
callers of the run are told apart by their fingerprints.
-/
theorem rulings_with_and_without_cache
    (rules : RuleSet)
    (settings : RuleSettings)
    (run : List (Nat × Request))
    (hdistinct : Claims.ToldApart (callers run)) :
    (Guard.new rules { settings with cacheEnabled := true }).rulings run =
      (Guard.new rules { settings with cacheEnabled := false }).rulings run := by
  have hcallers : ∀ claims ∈ callers run, claims ∈ callers run := fun _ h => h
  rw [(Faithful.new (callers run) rules _).rulings hdistinct hcallers,
    (Faithful.new (callers run) rules _).rulings hdistinct hcallers]

/-- Two callers of one tenant. -/
def ada : Claims := ⟨"ada", some "acme", ["editor"], none, []⟩

@[inherit_doc ada]
def ben : Claims := ⟨"ben", some "acme", [], none, []⟩

/-- All may read their own profile, and nothing else. -/
def ownProfiles : RuleSet :=
  let own : Rule :=
    ⟨"own", "profiles/\x7buid\x7d", [.get], 0, .compare .eq (.var "auth" ["uid"]) (.var "uid" [])⟩
  ⟨[own], .node [("profiles", .node [] (some ("uid", .node [] none [own])) [])] none []⟩

/-- A caller or none in the tenant, asking for nothing else. -/
def visitor (caller : Option Claims) : AccessContext :=
  ⟨caller, none, none, some "acme", none⟩

/-- Visits to a profile, with maintenance in between. -/
def visits : List (Nat × Request) :=
  [(0, .evaluate .get "profiles/ada" (visitor (some ada))),
   (10, .evaluate .get "profiles/ada" (visitor (some ben))),
   (20, .evaluate .get "/profiles/ada/" (visitor (some ada))),
   (30, .sweep),
   (40, .evaluate .get "profiles/ada" (visitor none)),
   (50, .clear),
   (60, .evaluate .get "profiles/ada" (visitor (some ben)))]

/-- The two callers have different fingerprints. -/
theorem toldApart_callers_visits : Claims.ToldApart (callers visits) := by
  have hne : ada.fingerprint ≠ ben.fingerprint := by decide +kernel
  have hcallers : ∀ claims ∈ callers visits, claims = ada ∨ claims = ben := by
    intro claims h
    change claims ∈ [ada, ben, ada, ben] at h
    simp only [List.mem_cons, List.not_mem_nil, or_false] at h
    rcases h with h | h | h | h
    · exact .inl h
    · exact .inr h
    · exact .inl h
    · exact .inr h
  intro a ha b hb h
  rcases hcallers a ha with rfl | rfl
  · rcases hcallers b hb with rfl | rfl
    · rfl
    · exact absurd h hne
  · rcases hcallers b hb with rfl | rfl
    · exact absurd h.symm hne
    · rfl

/-- The visits get the same rulings with and without the cache. -/
theorem rulings_on_visits :
    Claims.ToldApart (callers visits) ∧
      (Guard.new ownProfiles {}).rulings visits =
        (Guard.new ownProfiles { cacheEnabled := false }).rulings visits :=
  ⟨toldApart_callers_visits,
    rulings_with_and_without_cache ownProfiles {} visits toldApart_callers_visits⟩

end Guard
end DocumentStore
