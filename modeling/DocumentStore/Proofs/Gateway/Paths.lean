import DocumentStore.Proofs.Gateway.Mediation

/-!
# The path that is judged is the path that is accessed

A path named in a request is cut into segments three times: by the check of the
tenants, by the rules and by the store.  All three leave out the outer slashes, so
that they take the same document to be meant.  A request that names its path with
other outer slashes has the same effect, down to the decisions that the guard
keeps, and the same answer; only the texts of errors quote the path as it was
written.
-/

namespace DocumentStore

/-! ### Three readings of a path -/

namespace DocumentPath

/-- The tenant that the second segment names, if the first one is the root of the tenants. -/
def tenant? (p : DocumentPath) : Option String :=
  if p.segments[0]? = some tenantRoot then p.segments[1]? else none

variable {raw : String} {p : DocumentPath}

/-- The rules cut a text into the segments of the path that it is read as. -/
theorem segments?_of_parse
    (h : parse raw = .ok p) :
    Guard.segments? raw = some p.segments := by
  have hempty : p.segments.contains "" = false := by
    simpa using p.empty_notMem_segments
  unfold Guard.segments?
  rw [parse_eq_ok_iff.1 h, ← segments]
  dsimp only
  rw [hempty]
  rfl

/-- The check of the tenants finds in a text the tenant of the path that it is read as. -/
theorem pathTenant?_of_parse
    (h : parse raw = .ok p) :
    pathTenant? raw = p.tenant? := by
  have htwo := p.two_le_length_segments
  unfold pathTenant? tenant?
  rw [parse_eq_ok_iff.1 h, ← segments]
  rcases hsegments : p.segments with _ | ⟨root, _ | ⟨named, rest⟩⟩
  · simp [hsegments] at htwo
  · simp [hsegments] at htwo
  · simp

end DocumentPath

/-! ### Judging the same path -/

section

variable {r s : String} (h : withoutOuterSlashes r = withoutOuterSlashes s)

include h

/-- What the rules decide does not depend on the outer slashes, nor does what is kept of it. -/
theorem Guard.evaluate_of_withoutOuterSlashes_eq
    (g : Guard)
    (instant : Nat)
    (kind : AccessKind)
    (ctx : AccessContext) :
    (g.evaluate instant kind r ctx).1.decision.allowed =
        (g.evaluate instant kind s ctx).1.decision.allowed ∧
      (g.evaluate instant kind r ctx).2 = (g.evaluate instant kind s ctx).2 := by
  have hsegments := Guard.segments?_of_withoutOuterSlashes_eq h
  cases hs : Guard.segments? s with
  | none =>
      rw [hs] at hsegments
      rw [evaluate_of_bad_path hs, evaluate_of_bad_path hsegments]
      simp only [ruleAnew, hs, hsegments, Decision.allowed, and_self]
  | some segments =>
      unfold Guard.evaluate
      rw [hsegments, hs, h]
      exact ⟨rfl, rfl⟩

namespace Database

theorem foreign?_of_withoutOuterSlashes_eq (requester : Requester) :
    foreign? requester r = foreign? requester s := by
  unfold foreign? pathTenant?
  rw [h]

/-- Two texts that are one path are judged alike. -/
theorem authorize_of_withoutOuterSlashes_eq
    (db : Database)
    (instant : Nat)
    (requester : Requester)
    (kind : AccessKind)
    (resource : Option Document)
    (payload : Option Json) :
    (db.authorize instant requester kind r resource payload).1.map RequestError.code =
        (db.authorize instant requester kind s resource payload).1.map RequestError.code ∧
      (db.authorize instant requester kind r resource payload).2 =
        (db.authorize instant requester kind s resource payload).2 := by
  unfold authorize
  rw [foreign?_of_withoutOuterSlashes_eq h]
  cases foreign? requester s with
  | some refusal =>
      exact ⟨rfl, rfl⟩
  | none =>
      dsimp only
      split
      · exact ⟨rfl, rfl⟩
      · have hevaluate := Guard.evaluate_of_withoutOuterSlashes_eq h db.guard instant kind
          (db.accessContext requester resource payload)
        generalize db.guard.evaluate instant kind r _ = ruled at hevaluate
        generalize db.guard.evaluate instant kind s _ = ruled' at hevaluate
        obtain ⟨⟨decision, _, _⟩, guard⟩ := ruled
        obtain ⟨⟨decision', _, _⟩, guard'⟩ := ruled'
        obtain ⟨hallowed, rfl : guard = guard'⟩ := hevaluate
        cases decision with
        | allow rule =>
            cases decision' with
            | allow rule' => exact ⟨rfl, rfl⟩
            | deny reason' => cases hallowed
        | deny reason =>
            cases decision' with
            | allow rule' => cases hallowed
            | deny reason' => exact ⟨rfl, rfl⟩

end Database

end

/-! ### Requests for the same path -/

namespace Database

/-- Responses that differ in the text of an error at most. -/
structure AnswerAlike (a b : Response) : Prop where
  result : a.1.mapError RequestError.code = b.1.mapError RequestError.code
  database : a.2 = b.2

theorem AnswerAlike.refl (a : Response) :
    AnswerAlike a a :=
  ⟨rfl, rfl⟩

/-- What goes on alike after an access was judged, goes on alike for the same path. -/
theorem accessing_of_withoutOuterSlashes_eq
    {r s : String}
    (h : withoutOuterSlashes r = withoutOuterSlashes s)
    (db : Database)
    (instant : Nat)
    (requester : Requester)
    (kind : AccessKind)
    (payload : Option Json)
    {next next' : Database → DocumentPath → Option Document → Response}
    (hnext : ∀ db path current, AnswerAlike (next db path current) (next' db path current)) :
    AnswerAlike
      (db.accessing instant requester kind r payload next)
      (db.accessing instant requester kind s payload next') := by
  unfold accessing readPath
  rw [DocumentPath.parse_of_withoutOuterSlashes_eq h]
  cases DocumentPath.parse s with
  | error fault =>
      exact ⟨rfl, rfl⟩
  | ok path =>
      dsimp only
      obtain ⟨hverdict, hdb⟩ := authorize_of_withoutOuterSlashes_eq h db instant requester kind
        (db.store.find? requester.tenant path) payload
      generalize db.authorize instant requester kind r _ payload = judged at hverdict hdb
      generalize db.authorize instant requester kind s _ payload = judged' at hverdict hdb
      obtain ⟨verdict, after⟩ := judged
      obtain ⟨verdict', after'⟩ := judged'
      obtain rfl : after = after' := hdb
      cases verdict with
      | none =>
          cases verdict' with
          | none => exact hnext after path _
          | some refusal => cases hverdict
      | some refusal =>
          cases verdict' with
          | none => cases hverdict
          | some refusal' => exact ⟨congrArg Except.error (Option.some.inj hverdict), rfl⟩

/-- A single write is carried out alike for the same path. -/
theorem writing_of_withoutOuterSlashes_eq
    {r s : String}
    (h : withoutOuterSlashes r = withoutOuterSlashes s)
    (db : Database)
    (moment : Moment)
    (requester : Requester)
    (kind : AccessKind)
    (payload : Option Json)
    (key : Option String)
    (writeTo : DocumentPath → Write) :
    AnswerAlike
      (db.writing moment requester kind r payload key writeTo)
      (db.writing moment requester kind s payload key writeTo) :=
  accessing_of_withoutOuterSlashes_eq h db moment.instant requester kind payload
    fun _ _ _ => .refl _

end Database

/-- One request on a document with its path written with other outer slashes. -/
inductive Operation.Respelled : Operation → Operation → Prop where
  | get
      {r s : String}
      (h : SameButOuterSlashes r s) :
      Respelled (.get r) (.get s)
  | create
      {r s : String}
      (h : SameButOuterSlashes r s)
      (data : Json)
      (key : Option String) :
      Respelled (.create r data key) (.create s data key)
  | update
      {r s : String}
      (h : SameButOuterSlashes r s)
      (data : Json)
      (ifVersion : Option UInt64)
      (merge : Bool)
      (key : Option String) :
      Respelled (.update r data ifVersion merge key) (.update s data ifVersion merge key)
  | delete
      {r s : String}
      (h : SameButOuterSlashes r s)
      (ifVersion : Option UInt64)
      (key : Option String) :
      Respelled (.delete r ifVersion key) (.delete s ifVersion key)

namespace Database

/-- A request with other outer slashes has the same answer and leaves the same database. -/
theorem answerAlike_of_respelled
    {operation respelled : Operation}
    (h : operation.Respelled respelled)
    (db : Database)
    (moment : Moment)
    (freshId : String)
    (requester : Requester) :
    AnswerAlike
      (db.execute moment freshId requester operation)
      (db.execute moment freshId requester respelled) := by
  cases h with
  | get h =>
      unfold execute
      refine accessing_of_withoutOuterSlashes_eq (sameButOuterSlashes_iff.1 h) db moment.instant
        requester .get none ?_
      intro db path current
      cases current with
      | none => exact ⟨rfl, rfl⟩
      | some doc => exact .refl _
  | create h data key =>
      unfold execute
      exact writing_of_withoutOuterSlashes_eq (sameButOuterSlashes_iff.1 h) db moment requester
        .create (some data) key _
  | update h data ifVersion merge key =>
      unfold execute
      exact writing_of_withoutOuterSlashes_eq (sameButOuterSlashes_iff.1 h) db moment requester
        .update (some data) key _
  | delete h ifVersion key =>
      unfold execute
      exact writing_of_withoutOuterSlashes_eq (sameButOuterSlashes_iff.1 h) db moment requester
        .delete none key _

/--
A text that is read as a path is cut by the rules into the segments of that path,
its tenant is the tenant of that path, and the text of the path is read as the same
path again.  Two such texts are one path exactly if they differ in nothing but
their outer slashes, and requests that differ in no more have the same answer, up
to the texts of errors, and leave the same database.
-/
theorem judged_path_is_accessed_path :
    (∀ raw p, DocumentPath.parse raw = .ok p →
      Guard.segments? raw = some p.segments ∧
        pathTenant? raw = p.tenant? ∧
        DocumentPath.parse p.text = .ok p) ∧
    (∀ r s p q, DocumentPath.parse r = .ok p → DocumentPath.parse s = .ok q →
      (p = q ↔ SameButOuterSlashes r s)) ∧
    (∀ (db : Database) (moment : Moment) (freshId : String) (requester : Requester)
      (operation respelled : Operation), operation.Respelled respelled →
        AnswerAlike
          (db.execute moment freshId requester operation)
          (db.execute moment freshId requester respelled)) := by
  refine ⟨fun raw p h => ?_, fun r s p q hr hs => ?_, fun db moment freshId requester _ _ h => ?_⟩
  · exact ⟨DocumentPath.segments?_of_parse h, DocumentPath.pathTenant?_of_parse h,
      DocumentPath.parse_text p⟩
  · rw [sameButOuterSlashes_iff, DocumentPath.parse_eq_ok_iff.1 hr,
      DocumentPath.parse_eq_ok_iff.1 hs]
    exact ⟨congrArg DocumentPath.text, DocumentPath.ext⟩
  · exact answerAlike_of_respelled h db moment freshId requester

/-- The path of an order of another tenant, with slashes at its ends. -/
def slashedOrderOfZeta : String := "/tenants/zeta/orders/1//"

/-- An order of another tenant is the same order with slashes around its path. -/
theorem slashedOrderOfZeta_is_orderOfZeta :
    DocumentPath.parse slashedOrderOfZeta = .ok orderOfZeta ∧
    Guard.segments? slashedOrderOfZeta = some ["tenants", "zeta", "orders", "1"] ∧
    pathTenant? slashedOrderOfZeta = some "zeta" ∧
    SameButOuterSlashes slashedOrderOfZeta orderOfZeta.text ∧
    AnswerAlike
      (fresh.execute ⟨5, fun _ => ⟨9⟩⟩ "u" (.ofService "zeta")
        (.create slashedOrderOfZeta (.ofNat 1) none))
      (fresh.execute ⟨5, fun _ => ⟨9⟩⟩ "u" (.ofService "zeta")
        (.create orderOfZeta.text (.ofNat 1) none)) := by
  obtain ⟨hmeans, hsame, hexecute⟩ := judged_path_is_accessed_path
  have hslashed : DocumentPath.parse slashedOrderOfZeta = .ok orderOfZeta := by rfl
  obtain ⟨hsegments, htenant, htext⟩ := hmeans slashedOrderOfZeta orderOfZeta hslashed
  have houter := (hsame _ _ _ _ hslashed htext).1 rfl
  exact ⟨hslashed, hsegments, htenant, houter,
    hexecute fresh ⟨5, fun _ => ⟨9⟩⟩ "u" (.ofService "zeta") _ _ (.create houter _ _)⟩

end Database
end DocumentStore
