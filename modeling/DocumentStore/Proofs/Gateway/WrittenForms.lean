import DocumentStore.Access.RuleSet
import DocumentStore.Gateway.Operation
import DocumentStore.Proofs.Json.Record
import DocumentStore.Proofs.Path
import DocumentStore.Settings

/-!
# Written forms of requests and configurations

Operations, queries, index definitions, reads, writes, declared rules, claims and
settings are read back from their written form.  The tag of an operation and that
of the writes inside it have the same name, and neither hides the other; a field
that is absent and one that is null give the same value, and it is written as null.
The text of a written form is read back too, when the payloads that it carries are
legible where they stand in it: some binary64 numbers are not read back from their
digits, and the text must not be nested too deeply.
-/

namespace DocumentStore

open Json (ReadsBack RoundTrips)

theorem Direction.readsBack (place : Json.Place) :
    ReadsBack toJson (ofJson? place) := by
  intro d
  cases d <;> rfl

theorem FilterOp.readsBack (place : Json.Place) :
    ReadsBack (fun op => .string (sign op)) (ofJson? place) := by
  intro op
  cases op <;> rfl

theorem SortField.readsBack (place : Json.Place) :
    ReadsBack toJson (ofJson? place) := by
  intro f
  have hslots : f.toJson.slots? .refused [["field"], ["direction"]] =
      some [some (.string f.field), some f.direction.toJson] := rfl
  simp only [ofJson?, hslots, Option.bind_eq_bind, Option.bind_some,
    Json.readsBack_string.required, (Direction.readsBack place).withDefault]

theorem WhereClause.readsBack (place : Json.Place) :
    ReadsBack toJson (ofJson? place) := by
  intro c
  have hslots : c.toJson.slots? .refused [["field"], ["op"], ["value"]] =
      some [some (.string c.field), some (.string c.op.sign), some c.value] := rfl
  simp only [ofJson?, hslots, Option.bind_eq_bind, Option.bind_some,
    Json.readsBack_string.required, (FilterOp.readsBack place).required]

theorem IndexDefinition.readsBack :
    ReadsBack toJson ofJson? := by
  intro d
  have hslots : d.toJson.slots? .refused [["name"], ["collection"], ["fields"]] =
      some [some (.string d.name), some (.string d.collection),
        some (.array (d.fields.map SortField.toJson))] := rfl
  simp only [ofJson?, hslots, Option.bind_eq_bind, Option.bind_some,
    Json.readsBack_string.required, (SortField.readsBack .outer).list.required]

/-- Queries for a tenant are read back. -/
theorem QuerySpec.readsBack :
    ReadsBack toJson ofJson? := by
  intro q
  have hslots : q.toJson.slots? .refused
      [["collection"], ["tenant"], ["where"], ["orderBy"], ["limit"]] =
      some [some (.string q.collection), some (.string q.tenant),
        some (.array (q.filters.map WhereClause.toJson)),
        some (.array (q.order.map SortField.toJson)),
        some (Json.ofOption Json.ofWord q.limit)] := rfl
  simp only [ofJson?, hslots, Option.bind_eq_bind, Option.bind_some,
    Json.readsBack_string.required, (WhereClause.readsBack .outer).list.withDefault,
    (SortField.readsBack .outer).list.withDefault, Json.optional_ofWord]

theorem DocumentPath.readsBack :
    ReadsBack (fun p => .string p.text) ofJson? := by
  intro p
  rw [ofJson?, parse_text]
  rfl

theorem ReadVersion.readsBack :
    ReadsBack toJson ofJson? := by
  intro r
  have hslots : r.toJson.slots? .refused [["path"], ["version"]] =
      some [some (.string r.path.text), some (Json.ofWord r.version)] := rfl
  simp only [ofJson?, hslots, Option.bind_eq_bind, Option.bind_some,
    DocumentPath.readsBack.required, Json.readsBack_ofWord.withDefault]

/-- The fields of a write that are written beside its name. -/
def Write.fields : Write → Json
  | create path data => .object [("data", data), ("path", .string path.text)]
  | update path data ifVersion merge =>
      .object
        [("data", data),
         ("if_version", Json.ofOption Json.ofWord ifVersion),
         ("merge", .bool merge),
         ("path", .string path.text)]
  | delete path ifVersion =>
      .object
        [("if_version", Json.ofOption Json.ofWord ifVersion), ("path", .string path.text)]

/-- Writes are read back. -/
theorem Write.readsBack (place : Json.Place) :
    ReadsBack toJson (ofJson? place) := by
  intro w
  have htagged : w.toJson.tagged? place "op" names = some (w.name, w.fields) := by
    cases w <;> rfl
  cases w with
  | create path data =>
      have hslots : (create path data).fields.slots? .refused [["path"], ["data"]] =
          some [some (.string path.text), some data] := rfl
      simp only [ofJson?, htagged, name, hslots, Option.bind_eq_bind, Option.bind_some,
        DocumentPath.readsBack.required]
  | update path data ifVersion merge =>
      have hslots : (update path data ifVersion merge).fields.slots? .refused
          [["path"], ["data"], ["if_version"], ["merge"]] =
          some [some (.string path.text), some data,
            some (Json.ofOption Json.ofWord ifVersion), some (.bool merge)] := rfl
      simp only [ofJson?, htagged, name, hslots, Option.bind_eq_bind, Option.bind_some,
        DocumentPath.readsBack.required, Json.optional_ofWord, Json.readsBack_bool.withDefault]
  | delete path ifVersion =>
      have hslots : (delete path ifVersion).fields.slots? .refused [["path"], ["if_version"]] =
          some [some (.string path.text), some (Json.ofOption Json.ofWord ifVersion)] := rfl
      simp only [ofJson?, htagged, name, hslots, Option.bind_eq_bind, Option.bind_some,
        DocumentPath.readsBack.required, Json.optional_ofWord]

/-- The fields of a query that are written beside the name of its operation. -/
def Query.fields (q : Query) : Json :=
  .object
    [("collection", .string q.collection),
     ("limit", Json.ofOption Json.ofWord q.limit),
     ("orderBy", .array (q.order.map SortField.toJson)),
     ("where", .array (q.filters.map WhereClause.toJson))]

/-- Queries are read back. -/
theorem Query.readsBack (place : Json.Place) :
    ReadsBack fields (ofJson? place) := by
  intro q
  have hslots : q.fields.slots? .refused [["collection"], ["where"], ["orderBy"], ["limit"]] =
      some [some (.string q.collection), some (.array (q.filters.map WhereClause.toJson)),
        some (.array (q.order.map SortField.toJson)),
        some (Json.ofOption Json.ofWord q.limit)] := rfl
  simp only [ofJson?, hslots, Option.bind_eq_bind, Option.bind_some,
    Json.readsBack_string.required, (WhereClause.readsBack place).list.withDefault,
    (SortField.readsBack place).list.withDefault, Json.optional_ofWord]

/-- The fields of an operation that are written beside its name. -/
def Operation.fields : Operation → Json
  | get path => .object [("path", .string path)]
  | create path data key =>
      .object
        [("data", data),
         ("idempotency_key", Json.ofOption .string key),
         ("path", .string path)]
  | update path data ifVersion merge key =>
      .object
        [("data", data),
         ("idempotency_key", Json.ofOption .string key),
         ("if_version", Json.ofOption Json.ofWord ifVersion),
         ("merge", .bool merge),
         ("path", .string path)]
  | delete path ifVersion key =>
      .object
        [("idempotency_key", Json.ofOption .string key),
         ("if_version", Json.ofOption Json.ofWord ifVersion),
         ("path", .string path)]
  | query q | explain q => q.fields
  | commit transaction reads writes =>
      .object
        [("operations", .array (writes.map Write.toJson)),
         ("reads", .array (reads.map ReadVersion.toJson)),
         ("transaction_id", Json.ofOption .string transaction)]

/-- Operations are read back. -/
theorem Operation.readsBack :
    ReadsBack toJson ofJson? := by
  intro o
  have htagged : o.toJson.tagged? .outer "op" names = some (o.name, o.fields) := by
    cases o <;> rfl
  rw [ofJson?, htagged]
  cases o with
  | get path =>
      have hslots : (get path).fields.slots? .refused [["path"]] = some [some (.string path)] := rfl
      simp only [ofFields?, name, hslots, Option.bind_eq_bind, Option.bind_some,
        Json.readsBack_string.required]
  | create path data key =>
      have hslots : (create path data key).fields.slots? .refused
          [["path"], ["data"], ["idempotency_key"]] =
          some [some (.string path), some data, some (Json.ofOption .string key)] := rfl
      simp only [ofFields?, name, hslots, Option.bind_eq_bind, Option.bind_some,
        Json.readsBack_string.required, Json.optional_string]
  | update path data ifVersion merge key =>
      have hslots : (update path data ifVersion merge key).fields.slots? .refused
          [["path"], ["data"], ["if_version"], ["merge"], ["idempotency_key"]] =
          some [some (.string path), some data, some (Json.ofOption Json.ofWord ifVersion),
            some (.bool merge), some (Json.ofOption .string key)] := rfl
      simp only [ofFields?, name, hslots, Option.bind_eq_bind, Option.bind_some,
        Json.readsBack_string.required, Json.optional_ofWord, Json.readsBack_bool.withDefault,
        Json.optional_string]
  | delete path ifVersion key =>
      have hslots : (delete path ifVersion key).fields.slots? .refused
          [["path"], ["if_version"], ["idempotency_key"]] =
          some [some (.string path), some (Json.ofOption Json.ofWord ifVersion),
            some (Json.ofOption .string key)] := rfl
      simp only [ofFields?, name, hslots, Option.bind_eq_bind, Option.bind_some,
        Json.readsBack_string.required, Json.optional_ofWord, Json.optional_string]
  | query q =>
      exact congrArg (Option.map query) (Query.readsBack .inner q)
  | explain q =>
      exact congrArg (Option.map explain) (Query.readsBack .inner q)
  | commit transaction reads writes =>
      have hslots : (commit transaction reads writes).fields.slots? .refused
          [["transaction_id"], ["reads"], ["operations"]] =
          some [some (Json.ofOption .string transaction),
            some (.array (reads.map ReadVersion.toJson)),
            some (.array (writes.map Write.toJson))] := rfl
      simp only [ofFields?, name, hslots, Option.bind_eq_bind, Option.bind_some,
        Json.optional_string, ReadVersion.readsBack.list.withDefault,
        (Write.readsBack .inner).list.required]

/-- Priorities are read back. -/
theorem RuleDefinition.readsBack_priority :
    ReadsBack (fun p : Int32 => .number (.integer p.toInt)) asPriority? := by
  intro p
  have hbounds : -0x80000000 ≤ p.toInt ∧ p.toInt < 0x80000000 := by
    have hle := p.le_toInt
    have hlt := p.toInt_lt
    omega
  rw [asPriority?, if_pos hbounds, Int32.ofInt_toInt]

/-- Declared rules are read back. -/
theorem RuleDefinition.readsBack (surplus : Json.Surplus) :
    ReadsBack toJson (ofJson? surplus) := by
  intro d
  have hslots : d.toJson.slots? surplus fields =
      some [some (Json.ofOption .string d.name), some (.string d.path),
        some (.array (d.operations.map .string)), some (.string d.condition),
        some (.number (.integer d.priority.toInt))] := rfl
  simp only [ofJson?, hslots, Option.bind_eq_bind, Option.bind_some, Json.optional_string,
    Json.readsBack_string.required, Json.readsBack_string.list.required,
    readsBack_priority.withDefault]

/-- Claims are read back. -/
theorem Claims.readsBack :
    ReadsBack toJson ofJson? := by
  intro c
  have hslots : c.toJson.slots? .refused [["uid"], ["tenantId"], ["roles"], ["email"], ["token"]] =
      some [some (.string c.uid), some (Json.ofOption .string c.tenant),
        some (.array (c.roles.map .string)), some (Json.ofOption .string c.email),
        some (.object c.token)] := rfl
  have htoken : ReadsBack .object asMembers? := fun _ => rfl
  simp only [ofJson?, hslots, Option.bind_eq_bind, Option.bind_some, Json.optional_string,
    Json.readsBack_string.required, Json.readsBack_string.list.withDefault, htoken.withDefault]

/-- Settings of the store are read back. -/
theorem StoreSettings.readsBack (surplus : Json.Surplus) :
    ReadsBack toJson (ofJson? surplus) := by
  intro s
  have hslots : s.toJson.slots? surplus
      [["max_transaction_ops"], ["idempotency_ttl_secs"], ["idempotency_capacity"]] =
      some [some (Json.ofWord s.maxTransactionOps), some (Json.ofWord s.idempotencyTtlSecs),
        some (Json.ofWord s.idempotencyCapacity)] := rfl
  rw [ofJson?, hslots, Option.bind_eq_bind, Option.bind_some]
  dsimp only
  rw [Json.readsBack_ofWord.withDefault, Json.readsBack_ofWord.withDefault,
    Json.readsBack_ofWord.withDefault]
  rfl

theorem IndexSettings.readsBack (surplus : Json.Surplus) :
    ReadsBack toJson (ofJson? surplus) := by
  intro s
  have hslots : s.toJson.slots? surplus [["tenant_field"]] =
      some [some (.string s.tenantField)] := rfl
  simp only [ofJson?, hslots, Option.bind_eq_bind, Option.bind_some,
    Json.readsBack_string.withDefault]

/-- Settings of the access rules are read back. -/
theorem RuleSettings.readsBack (surplus : Json.Surplus) :
    ReadsBack toJson (ofJson? surplus) := by
  intro s
  have hslots : s.toJson.slots? surplus
      [["cache_enabled"], ["cache_ttl_secs"], ["cache_capacity"]] =
      some [some (.bool s.cacheEnabled), some (Json.ofWord s.cacheTtlSecs),
        some (Json.ofWord s.cacheCapacity)] := rfl
  rw [ofJson?, hslots, Option.bind_eq_bind, Option.bind_some]
  dsimp only
  rw [Json.readsBack_bool.withDefault, Json.readsBack_ofWord.withDefault,
    Json.readsBack_ofWord.withDefault]
  rfl

/-- Settings of regular maintenance are read back. -/
theorem MaintenanceSettings.readsBack (surplus : Json.Surplus) :
    ReadsBack toJson (ofJson? surplus) := by
  intro s
  have hslots : s.toJson.slots? surplus [["sweep_interval_secs"]] =
      some [some (Json.ofWord s.sweepIntervalSecs)] := rfl
  rw [ofJson?, hslots, Option.bind_eq_bind, Option.bind_some]
  dsimp only
  rw [Json.readsBack_ofWord.withDefault]
  rfl

/-- Settings are read back. -/
theorem Settings.readsBack (surplus : Json.Surplus) :
    ReadsBack toJson (ofJson? surplus) := by
  intro s
  have hslots : s.toJson.slots? surplus [["storage"], ["index"], ["rules"], ["maintenance"]] =
      some [some s.store.toJson, some s.index.toJson, some s.rules.toJson,
        some s.maintenance.toJson] := rfl
  rw [ofJson?, hslots, Option.bind_eq_bind, Option.bind_some]
  dsimp only
  rw [(StoreSettings.readsBack surplus).withDefault, (IndexSettings.readsBack surplus).withDefault,
    (RuleSettings.readsBack surplus).withDefault,
    (MaintenanceSettings.readsBack surplus).withDefault]
  rfl

/-! ### Texts of written forms -/

section Legible

variable {room : Nat}

namespace SortField

@[simp]
theorem legible_toJson (f : SortField) :
    f.toJson.Legible (room + 1) := by
  refine Json.legible_record rfl (by decide : ["direction", "field"].Pairwise (· < ·)) ?_
  simp [Direction.toJson]

@[simp]
theorem legible_map_toJson (l : List SortField) :
    (Json.array (l.map toJson)).Legible (room + 2) :=
  Json.legible_map fun f _ => f.legible_toJson

end SortField

theorem WhereClause.legible_toJson
    {c : WhereClause}
    (h : c.value.Legible room) :
    c.toJson.Legible (room + 1) := by
  refine Json.legible_record rfl (by decide : ["field", "op", "value"].Pairwise (· < ·)) ?_
  simp [h]

theorem WhereClause.legible_map_toJson
    {l : List WhereClause}
    (h : ∀ c ∈ l, c.value.Legible room) :
    (Json.array (l.map toJson)).Legible (room + 2) :=
  Json.legible_map fun c hc => legible_toJson (h c hc)

theorem IndexDefinition.legible_toJson (d : IndexDefinition) :
    d.toJson.Legible (room + 3) := by
  refine Json.legible_record rfl (by decide : ["collection", "fields", "name"].Pairwise (· < ·)) ?_
  simp

/-- Queries for a tenant are legible if the values in their conditions are. -/
theorem QuerySpec.legible_toJson
    {q : QuerySpec}
    (h : ∀ c ∈ q.filters, c.value.Legible room) :
    q.toJson.Legible (room + 3) := by
  refine Json.legible_record rfl
    (by decide : ["collection", "limit", "orderBy", "tenant", "where"].Pairwise (· < ·)) ?_
  simp [WhereClause.legible_map_toJson h]

/-- Queries are legible if the values in their conditions are. -/
theorem Operation.legible_queryToJson
    (name : String)
    {q : Query}
    (h : ∀ c ∈ q.filters, c.value.Legible room) :
    (queryToJson name q).Legible (room + 3) := by
  refine Json.legible_record rfl
    (by decide : ["collection", "limit", "op", "orderBy", "where"].Pairwise (· < ·)) ?_
  simp [WhereClause.legible_map_toJson h]

theorem ReadVersion.legible_toJson (r : ReadVersion) :
    r.toJson.Legible (room + 1) := by
  refine Json.legible_record rfl (by decide : ["path", "version"].Pairwise (· < ·)) ?_
  simp

/-- Writes are legible if their payloads are. -/
theorem Write.legible_toJson
    {w : Write}
    (h : ∀ v ∈ w.payload?, v.Legible room) :
    w.toJson.Legible (room + 1) := by
  cases w with
  | create path data =>
      refine Json.legible_record rfl (by decide : ["data", "op", "path"].Pairwise (· < ·)) ?_
      simp [h data rfl]
  | update path data ifVersion merge =>
      refine Json.legible_record rfl
        (by decide : ["data", "if_version", "merge", "op", "path"].Pairwise (· < ·)) ?_
      simp [h data rfl]
  | delete path ifVersion =>
      refine Json.legible_record rfl (by decide : ["if_version", "op", "path"].Pairwise (· < ·)) ?_
      simp

/-- Declared rules are legible. -/
theorem RuleDefinition.legible_toJson (d : RuleDefinition) :
    d.toJson.Legible (room + 2) := by
  have hpriority : (Json.number (.integer d.priority.toInt)).Legible (room + 1) := by
    have hle := d.priority.le_toInt
    have hlt := d.priority.toInt_lt
    rw [Json.Legible, Json.Number.Legible]
    exact .inl ⟨by omega, by omega⟩
  refine Json.legible_record rfl
    (by decide : ["condition", "name", "operations", "path", "priority"].Pairwise (· < ·)) ?_
  simp [hpriority]

theorem Claims.legible_toJson
    {c : Claims}
    (h : (Json.object c.token).Legible (room + 1)) :
    c.toJson.Legible (room + 2) := by
  refine Json.legible_record rfl
    (by decide : ["email", "roles", "tenantId", "token", "uid"].Pairwise (· < ·)) ?_
  simp [h]

/-- Settings are legible. -/
theorem Settings.legible_toJson (s : Settings) :
    s.toJson.Legible (room + 2) := by
  have hstore : s.store.toJson.Legible (room + 1) := by
    refine Json.legible_record rfl
      (by decide : ["idempotency_capacity", "idempotency_ttl_secs",
        "max_transaction_ops"].Pairwise (· < ·)) ?_
    simp
  have hindex : s.index.toJson.Legible (room + 1) := by
    refine Json.legible_record rfl (by decide : ["tenant_field"].Pairwise (· < ·)) ?_
    simp
  have hrules : s.rules.toJson.Legible (room + 1) := by
    refine Json.legible_record rfl
      (by decide : ["cache_capacity", "cache_enabled", "cache_ttl_secs"].Pairwise (· < ·)) ?_
    simp
  have hmaintenance : s.maintenance.toJson.Legible (room + 1) := by
    refine Json.legible_record rfl (by decide : ["sweep_interval_secs"].Pairwise (· < ·)) ?_
    simp
  refine Json.legible_record rfl
    (by decide : ["index", "maintenance", "rules", "storage"].Pairwise (· < ·)) ?_
  simp [hstore, hindex, hrules, hmaintenance]

/-- The value in a condition, inside the condition, the list of conditions and the query. -/
def WhereClause.carried (c : WhereClause) : Nat × Json := (3, c.value)

/-- The values that an operation carries, with the number of arrays and objects around them. -/
def Operation.carried : Operation → List (Nat × Json)
  | create _ data _ | update _ data .. => [(1, data)]
  | query q | explain q => q.filters.map WhereClause.carried
  | commit _ _ writes => (writes.filterMap Write.payload?).map fun v => (3, v)
  | get _ | delete .. => []

theorem WhereClause.legible_of_carried
    {l : List WhereClause}
    (h : Json.CarriedLegibly (room + 3) (l.map carried)) :
    ∀ c ∈ l, c.value.Legible room :=
  fun _ hc => h _ (List.mem_map_of_mem hc)

/-- Operations are legible if the values that they carry are. -/
theorem Operation.legible_toJson
    {o : Operation}
    (h : Json.CarriedLegibly (room + 3) o.carried) :
    o.toJson.Legible (room + 3) := by
  cases o with
  | get path =>
      refine Json.legible_record rfl (by decide : ["op", "path"].Pairwise (· < ·)) ?_
      simp
  | create path data key =>
      have hdata : data.Legible (room + 2) := h _ List.mem_cons_self
      refine Json.legible_record rfl
        (by decide : ["data", "idempotency_key", "op", "path"].Pairwise (· < ·)) ?_
      simp [hdata]
  | update path data ifVersion merge key =>
      have hdata : data.Legible (room + 2) := h _ List.mem_cons_self
      refine Json.legible_record rfl
        (by decide :
          ["data", "idempotency_key", "if_version", "merge", "op", "path"].Pairwise (· < ·)) ?_
      simp [hdata]
  | delete path ifVersion key =>
      refine Json.legible_record rfl
        (by decide : ["idempotency_key", "if_version", "op", "path"].Pairwise (· < ·)) ?_
      simp
  | query q =>
      exact legible_queryToJson "query" (WhereClause.legible_of_carried h)
  | explain q =>
      exact legible_queryToJson "explain" (WhereClause.legible_of_carried h)
  | commit transaction reads writes =>
      have hpayload : ∀ w ∈ writes, ∀ v ∈ w.payload?, v.Legible room := fun w hw v hv =>
        h _ (List.mem_map_of_mem (List.mem_filterMap.2 ⟨w, hw, hv⟩))
      have hwrites : (Json.array (writes.map Write.toJson)).Legible (room + 2) :=
        Json.legible_map fun w hw => Write.legible_toJson (hpayload w hw)
      have hreads : (Json.array (reads.map ReadVersion.toJson)).Legible (room + 2) :=
        Json.legible_map fun r _ => r.legible_toJson
      refine Json.legible_record rfl
        (by decide : ["op", "operations", "reads", "transaction_id"].Pairwise (· < ·)) ?_
      simp [hwrites, hreads]

end Legible

/-! ### Round trips -/

/--
Everything that a request or a configuration is made of makes the round trip
through its written form: whatever it carries, what is written is read back as it
was, integers as integers and binary64 numbers as binary64 numbers, and reading and
writing again changes nothing that was written once.  So it is with texts, if every
binary64 number in a payload is read back from its digits and the payloads are not
nested too deeply.
-/
theorem written_forms_round_trip :
    RoundTrips Operation.carried Operation.toJson Operation.ofJson? ∧
    RoundTrips (fun q => q.filters.map WhereClause.carried) QuerySpec.toJson QuerySpec.ofJson? ∧
    RoundTrips (fun _ => []) IndexDefinition.toJson IndexDefinition.ofJson? ∧
    RoundTrips (fun _ => []) ReadVersion.toJson ReadVersion.ofJson? ∧
    (∀ place,
      RoundTrips (fun w => w.payload?.toList.map fun v => (1, v)) Write.toJson
        (Write.ofJson? place)) ∧
    (∀ surplus,
      RoundTrips (fun _ => []) RuleDefinition.toJson (RuleDefinition.ofJson? surplus)) ∧
    RoundTrips (fun c => [(1, .object c.token)]) Claims.toJson Claims.ofJson? ∧
    (∀ surplus, RoundTrips (fun _ => []) Settings.toJson (Settings.ofJson? surplus)) := by
  refine ⟨?_, ?_, ?_, ?_, ?_, ?_, ?_, ?_⟩
  · exact Operation.readsBack.roundTrips fun _ h => Operation.legible_toJson h
  · exact QuerySpec.readsBack.roundTrips fun _ h =>
      QuerySpec.legible_toJson (WhereClause.legible_of_carried h)
  · exact IndexDefinition.readsBack.roundTrips fun d _ => d.legible_toJson
  · exact ReadVersion.readsBack.roundTrips fun r _ => r.legible_toJson
  · exact fun place => (Write.readsBack place).roundTrips fun _ h =>
      Write.legible_toJson fun v hv => h (1, v) (List.mem_map_of_mem (Option.mem_toList.2 hv))
  · exact fun surplus => (RuleDefinition.readsBack surplus).roundTrips fun d _ => d.legible_toJson
  · exact Claims.readsBack.roundTrips fun _ h => Claims.legible_toJson (h _ List.mem_cons_self)
  · exact fun surplus => (Settings.readsBack surplus).roundTrips fun s _ => s.legible_toJson

/-- The creation of a document with the integer 1 and the binary64 number 1. -/
def Operation.mixedNumbers : Operation :=
  .create "tenants/T1"
    (.object [("count", .number (.integer 1)), ("rate", .number (.float (Binary64.ofInt 1)))])
    none

/-- An integer and a binary64 number of one value are read back each as what it was. -/
theorem Operation.mixedNumbers_read_back :
    Json.CarriedLegibly Json.nestingLimit mixedNumbers.carried ∧
      (Json.parse? mixedNumbers.toJson.compact).bind ofJson? = some mixedNumbers := by
  have hinteger : (Json.number (.integer 1)).Legible 125 := by
    rw [Json.Legible, Json.Number.Legible]
    decide
  have hfloat : (Json.number (.float (Binary64.ofInt 1))).Legible 125 := by
    have hread : Json.Parser.number? (Json.renderBinary64 (Binary64.ofInt 1)) =
        some (some (.float (Binary64.ofInt 1)), []) := by
      decide +kernel
    rw [Json.Legible, Json.Number.Legible]
    exact hread
  have hlegible : Json.CarriedLegibly Json.nestingLimit mixedNumbers.carried := by
    intro c hc
    rw [List.mem_singleton.1 hc]
    refine Json.legible_record rfl (by decide : ["count", "rate"].Pairwise (· < ·)) ?_
    simp [hinteger, hfloat]
  exact ⟨hlegible, written_forms_round_trip.1.text_reads_back mixedNumbers hlegible⟩

/-- The creation of a document with given data. -/
def Operation.creation (data : Json) : Operation :=
  .create "tenants/T1" data none

/-- A positive binary64 number as a value. -/
def Json.ofMagnitude (magnitude : Nat) (h : magnitude < Binary64.limit) : Json :=
  .number (.float ⟨false, magnitude, h⟩)

/-- Arrays inside each other. -/
def Json.nestedArrays : (depth : Nat) → Json
  | 0 => .array []
  | depth + 1 => .array [nestedArrays depth]

/-- Arrays inside each other are legible where there is room for them. -/
theorem Json.legible_nestedArrays (depth : Nat) :
    (nestedArrays depth).Legible (depth + 1) := by
  induction depth with
  | zero =>
      rw [nestedArrays, Legible, ItemsLegible]
      exact trivial
  | succ depth ih =>
      rw [nestedArrays, Legible, ItemsLegible, ItemsLegible]
      exact ⟨ih, trivial⟩

/--
The text of an operation does not always lead back to it.  The number that is
written as 6e+23 is read as the one before it, and 127 arrays inside each other
are one too many inside an operation.
-/
theorem Operation.text_loses_some_payloads :
    (Json.parse? (creation (.ofMagnitude 0x44DFC3842BD1F072 (by decide))).toJson.compact).bind
        ofJson? = some (creation (.ofMagnitude 0x44DFC3842BD1F071 (by decide))) ∧
      creation (.ofMagnitude 0x44DFC3842BD1F071 (by decide)) ≠
        creation (.ofMagnitude 0x44DFC3842BD1F072 (by decide)) ∧
      (Json.parse? (creation (.nestedArrays 126)).toJson.compact).bind ofJson? = none := by
  have hneighbour :
      Json.parse? (creation (.ofMagnitude 0x44DFC3842BD1F072 (by decide))).toJson.compact =
        some (creation (.ofMagnitude 0x44DFC3842BD1F071 (by decide))).toJson := by
    decide +kernel
  have hdeep : Json.parse? (creation (.nestedArrays 126)).toJson.compact = none := by
    have hlegible : (creation (.nestedArrays 126)).toJson.Legible 128 := by
      refine Json.legible_record rfl
        (by decide : ["data", "idempotency_key", "op", "path"].Pairwise (· < ·)) ?_
      simp [Json.legible_nestedArrays 126]
    exact Json.parse?_compact_eq_none hlegible (by decide +kernel)
  refine ⟨?_, ?_, ?_⟩
  · rw [hneighbour, Option.bind_some, Operation.readsBack]
  · intro h
    injection h with _ hdata
    injection hdata with hnumber
    injection hnumber with hfloat
    exact absurd (congrArg Binary64.magnitude hfloat) (by decide)
  · rw [hdeep, Option.bind_none]

end DocumentStore
