import DocumentStore.Proofs.Gateway.Indexes
import DocumentStore.Proofs.Gateway.Judged

/-!
# Requests stay in their tenant

A caller whose claims name another tenant than the one asked for is refused,
and so is a path that is rooted at another one.  The check is part of every
judgement of an access, so it is made of every operation that needs an access
at all.  Only a commit without reads and writes needs none: it is carried out
for callers of other tenants, too, and answers with the receipt of the
transaction that it names.
-/

namespace DocumentStore

/-- A caller, no service, whose claims name another tenant than the one asked for. -/
def Requester.IsForeign (requester : Requester) : Prop :=
  requester.service = false ∧
    ∃ claimed, requester.caller.bind Claims.tenant = some claimed ∧ claimed ≠ requester.tenant

/-- A path begins with the root of a tenant. -/
def RootedAt (path tenant : String) : Prop :=
  ∃ rest, Text.pieces '/' (withoutOuterSlashes path) = tenantRoot :: tenant :: rest

/-- The tenant of a path is the one that it is rooted at. -/
theorem pathTenant?_eq_some_iff
    {path tenant : String} :
    pathTenant? path = some tenant ↔ RootedAt path tenant := by
  unfold pathTenant? RootedAt
  split
  · next root named rest heq =>
      rw [heq]
      by_cases hroot : root = tenantRoot
      · simp [hroot]
      · simp [hroot]
  · next hshort =>
      constructor
      · intro h
        cases h
      · rintro ⟨rest, heq⟩
        exact absurd heq (hshort tenantRoot tenant rest)

/-- The paths that an operation names; a query names the collection of its tenant. -/
def Operation.paths
    (tenant : String) :
    Operation → List String
  | .get raw => [raw]
  | .create raw _ _ => [raw]
  | .update raw _ _ _ _ => [raw]
  | .delete raw _ _ => [raw]
  | .query q => [listPath tenant q.collection]
  | .explain q => [listPath tenant q.collection]
  | .commit _ reads writes =>
      reads.map (fun read => read.path.text) ++ writes.map fun write => write.path.text

theorem Operation.paths_eq
    (store : Store)
    (tenant : String)
    (operation : Operation) :
    operation.paths tenant = (operation.accesses store tenant).map Access.path := by
  cases operation with
  | commit transaction reads writes =>
      simp [paths, accesses, Access.ofRead, Access.ofWrite, Function.comp_def]
  | _ =>
      rfl

theorem Operation.paths_ne_nil
    {operation : Operation}
    (tenant : String)
    (h : ∀ transaction, operation ≠ .commit transaction [] []) :
    operation.paths tenant ≠ [] := by
  cases operation with
  | commit transaction reads writes =>
      intro hnil
      simp only [paths, List.append_eq_nil_iff, List.map_eq_nil_iff] at hnil
      exact h transaction (by rw [hnil.1, hnil.2])
  | _ =>
      simp [paths]

namespace Database

/-- The claims of a foreign caller are found out on every path. -/
theorem foreign?_ne_none_of_isForeign
    {requester : Requester}
    (h : requester.IsForeign)
    (path : String) :
    foreign? requester path ≠ none := by
  obtain ⟨hservice, claimed, hclaimed, hne⟩ := h
  have hcaller : foreign?.callerForeign? requester ≠ none := by
    unfold foreign?.callerForeign?
    rw [hclaimed]
    simp [hservice, hne]
  unfold foreign?
  split
  · split
    · exact hcaller
    · simp
  · exact hcaller

theorem foreign?_ne_none_of_rootedAt
    {requester : Requester}
    {path named : String}
    (h : RootedAt path named)
    (hne : named ≠ requester.tenant) :
    foreign? requester path ≠ none := by
  unfold foreign?
  rw [pathTenant?_eq_some_iff.2 h]
  simp [hne]

theorem foreign?_eq_none_of_authorize
    {db : Database}
    {instant : Nat}
    {requester : Requester}
    {kind : AccessKind}
    {path : String}
    {resource : Option Document}
    {payload : Option Json}
    (h : (db.authorize instant requester kind path resource payload).1 = none) :
    foreign? requester path = none := by
  unfold authorize at h
  split at h
  · cases h
  · next hnone =>
      exact hnone

/-- An access that is denied on a path that is not foreign is denied by the rules. -/
theorem decision_of_authorize
    {db : Database}
    {instant : Nat}
    {requester : Requester}
    {kind : AccessKind}
    {path : String}
    {resource : Option Document}
    {payload : Option Json}
    {e : RequestError}
    (hforeign : foreign? requester path = none)
    (h : (db.authorize instant requester kind path resource payload).1 = some e) :
    requester.service = false ∧
      ∃ reason,
        (db.guard.evaluate instant kind path
          (db.accessContext requester resource payload)).1.decision = .deny reason ∧
        e = .denied kind path (.byRules reason.message) := by
  unfold authorize at h
  rw [hforeign] at h
  dsimp only at h
  split at h
  · cases h
  · next hservice =>
      refine ⟨Bool.eq_false_iff.2 hservice, ?_⟩
      generalize db.guard.evaluate instant kind path _ = result at h ⊢
      obtain ⟨ruling, guard⟩ := result
      dsimp only at h ⊢
      cases hdecision : ruling.decision with
      | allow rule =>
          rw [hdecision] at h
          cases h
      | deny reason =>
          rw [hdecision] at h
          exact ⟨reason, rfl, (Option.some.inj h).symm⟩

/-- When all accesses are granted, neither the caller nor a path is foreign. -/
theorem Granted.foreign?_eq_none
    {instant : Nat}
    {requester : Requester}
    {accesses : List Access}
    {db db' : Database}
    (h : Granted instant requester accesses db db') :
    ∀ path ∈ accesses.map Access.path, foreign? requester path = none := by
  intro path hpath
  obtain ⟨access, hmem, rfl⟩ := List.mem_map.1 hpath
  obtain ⟨between, -, hnone⟩ := h.exists_of_mem hmem
  exact foreign?_eq_none_of_authorize hnone

/--
A request of a foreign caller, or one that names a path of another tenant, is
answered with an error and leaves the store alone: its documents, its log, its
indexes and its replies, of all tenants.  A commit that names no path is
excepted.
-/
theorem execute_refuses_foreign
    (db : Database)
    (moment : Moment)
    (freshId : String)
    (requester : Requester)
    (operation : Operation)
    (hnames : ∀ transaction, operation ≠ .commit transaction [] [])
    (hforeign : requester.IsForeign ∨
      ∃ path ∈ operation.paths requester.tenant, ∃ named,
        RootedAt path named ∧ named ≠ requester.tenant) :
    (∃ e, (db.execute moment freshId requester operation).1 = .error e) ∧
      (db.execute moment freshId requester operation).2.store = db.store := by
  have hpath : ∃ path ∈ operation.paths requester.tenant, foreign? requester path ≠ none := by
    rcases hforeign with hcaller | ⟨path, hmem, named, hrooted, hne⟩
    · obtain ⟨path, hmem⟩ := List.exists_mem_of_ne_nil _
        (Operation.paths_ne_nil requester.tenant hnames)
      exact ⟨path, hmem, foreign?_ne_none_of_isForeign hcaller path⟩
    · exact ⟨path, hmem, foreign?_ne_none_of_rootedAt hrooted hne⟩
  have hanswered := db.answered_execute moment freshId requester operation
  generalize db.execute moment freshId requester operation = response at hanswered ⊢
  cases hanswered with
  | @turnedDown e db' hasked =>
      exact ⟨⟨e, rfl⟩, hasked.store_eq⟩
  | carriedOut hgranted =>
      obtain ⟨path, hmem, hfound⟩ := hpath
      rw [operation.paths_eq db.store] at hmem
      exact absurd (hgranted.foreign?_eq_none path hmem) hfound

/-- The first order. -/
def firstOrder : DocumentPath := ⟨"orders/1", by decide +kernel⟩

/-- An order of another tenant. -/
def orderOfZeta : DocumentPath := ⟨"tenants/zeta/orders/1", by decide +kernel⟩

/-- A commit that creates an order and then one of another tenant. -/
def straying : Operation :=
  .commit (some "t2") [⟨firstOrder, 0⟩]
    [.create firstOrder (.ofNat 1), .create orderOfZeta (.ofNat 2)]

/-- Even a service is refused when a later write of a commit strays into another tenant. -/
theorem straying_is_refused :
    (∀ transaction, straying ≠ .commit transaction [] []) ∧
    RootedAt orderOfZeta.text "zeta" ∧
    (∃ e, (fresh.execute ⟨5, fun _ => ⟨9⟩⟩ "u" (.ofService "acme") straying).1 = .error e) ∧
    (fresh.execute ⟨5, fun _ => ⟨9⟩⟩ "u" (.ofService "acme") straying).2.store = fresh.store := by
  have hnames : ∀ transaction, straying ≠ .commit transaction [] [] := by
    intro transaction h
    cases h
  have hrooted : RootedAt orderOfZeta.text "zeta" :=
    ⟨["orders", "1"], by decide +kernel⟩
  have hmem : orderOfZeta.text ∈ straying.paths "acme" := by decide +kernel
  exact ⟨hnames, hrooted,
    execute_refuses_foreign fresh ⟨5, fun _ => ⟨9⟩⟩ "u" (.ofService "acme") straying hnames
      (.inr ⟨orderOfZeta.text, hmem, "zeta", hrooted, by decide⟩)⟩

/-- A caller of `zeta` who asks for `acme`. -/
def eve : Requester := .signedIn "acme" ⟨"eve", some "zeta", [], none, []⟩

/-- A database in which a service of `acme` has committed an order. -/
def ordered : Database :=
  (fresh.execute ⟨0, fun _ => ⟨7⟩⟩ "u" (.ofService "acme")
    (.commit (some "t1") [] [.create firstOrder (.ofNat 1)])).2

/--
A commit without reads and writes is answered for a caller of another tenant:
it hands out the order that was created in the transaction that it names.
-/
theorem foreign_caller_gets_receipt :
    eve.IsForeign ∧
    ∃ doc, ordered.store.find? "acme" firstOrder = some doc ∧
      (ordered.execute ⟨5, fun _ => ⟨9⟩⟩ "u" eve (.commit (some "t1") [] [])).1 =
        .ok (.committed ⟨"t1", [.written doc]⟩) := by
  have hforeign : eve.IsForeign := ⟨rfl, "zeta", rfl, by decide⟩
  exact ⟨hforeign, _, rfl, rfl⟩

end Database
end DocumentStore
