import DocumentStore.Json.Record
import DocumentStore.Text.Blank
import DocumentStore.Toml.Parser

/-!
# Settings

Each part of the database has its own settings, all of which may be left out.
They are read from TOML or JSON and checked as a whole: a setting that would
make a part unusable is refused.
-/

namespace DocumentStore

/-- Settings of the store. -/
structure StoreSettings where
  maxTransactionOps : UInt64 := 500
  idempotencyTtlSecs : UInt64 := 600
  idempotencyCapacity : UInt64 := 100000
deriving DecidableEq, Repr

/-- Settings of the indexes. -/
structure IndexSettings where
  tenantField : String := "tenantId"
deriving DecidableEq, Repr

/-- Settings of the access rules. -/
structure RuleSettings where
  cacheEnabled : Bool := true
  cacheTtlSecs : UInt64 := 60
  cacheCapacity : UInt64 := 10000
deriving DecidableEq, Repr

/-- Settings of regular maintenance. -/
structure MaintenanceSettings where
  sweepIntervalSecs : UInt64 := 30
deriving DecidableEq, Repr

/-- All settings of a database. -/
structure Settings where
  store : StoreSettings := {}
  index : IndexSettings := {}
  rules : RuleSettings := {}
  maintenance : MaintenanceSettings := {}
deriving DecidableEq, Repr

/-- Why settings were refused. -/
inductive SettingsFault where
  /-- The text does not have the form of settings. -/
  | unreadable
  | noTransactionOps
  | noIdempotencyCapacity
  | noTenantField
  | noCacheCapacity
  | noSweepInterval
deriving DecidableEq, Repr

/-- The fault in words; an unreadable text has none of its own. -/
def SettingsFault.message? : SettingsFault → Option String
  | unreadable => none
  | noTransactionOps => some "storage.max_transaction_ops must be positive"
  | noIdempotencyCapacity => some "storage.idempotency_capacity must be positive"
  | noTenantField => some "index.tenant_field must not be empty"
  | noCacheCapacity => some "rules.cache_capacity must be positive"
  | noSweepInterval => some "maintenance.sweep_interval_secs must be positive"

/-! ### Written form -/

namespace StoreSettings

/-- The written form. -/
def toJson (s : StoreSettings) : Json :=
  .object
    [("idempotency_capacity", Json.ofWord s.idempotencyCapacity),
     ("idempotency_ttl_secs", Json.ofWord s.idempotencyTtlSecs),
     ("max_transaction_ops", Json.ofWord s.maxTransactionOps)]

/-- The settings from their written form. -/
def ofJson?
    (surplus : Json.Surplus)
    (v : Json) :
    Option StoreSettings := do
  let d : StoreSettings := {}
  match ← v.slots? surplus
      [["max_transaction_ops"], ["idempotency_ttl_secs"], ["idempotency_capacity"]] with
  | [ops, ttl, capacity] =>
      some
        { maxTransactionOps := ← Json.withDefault d.maxTransactionOps Json.asWord? ops
          idempotencyTtlSecs := ← Json.withDefault d.idempotencyTtlSecs Json.asWord? ttl
          idempotencyCapacity := ← Json.withDefault d.idempotencyCapacity Json.asWord? capacity }
  | _ => none

end StoreSettings

namespace IndexSettings

/-- The written form. -/
def toJson (s : IndexSettings) : Json :=
  .object [("tenant_field", .string s.tenantField)]

/-- The settings from their written form. -/
def ofJson?
    (surplus : Json.Surplus)
    (v : Json) :
    Option IndexSettings := do
  let d : IndexSettings := {}
  match ← v.slots? surplus [["tenant_field"]] with
  | [field] =>
      some { tenantField := ← Json.withDefault d.tenantField Json.asString? field }
  | _ => none

end IndexSettings

namespace RuleSettings

/-- The written form. -/
def toJson (s : RuleSettings) : Json :=
  .object
    [("cache_capacity", Json.ofWord s.cacheCapacity),
     ("cache_enabled", .bool s.cacheEnabled),
     ("cache_ttl_secs", Json.ofWord s.cacheTtlSecs)]

/-- The settings from their written form. -/
def ofJson?
    (surplus : Json.Surplus)
    (v : Json) :
    Option RuleSettings := do
  let d : RuleSettings := {}
  match ← v.slots? surplus [["cache_enabled"], ["cache_ttl_secs"], ["cache_capacity"]] with
  | [enabled, ttl, capacity] =>
      some
        { cacheEnabled := ← Json.withDefault d.cacheEnabled Json.asBool? enabled
          cacheTtlSecs := ← Json.withDefault d.cacheTtlSecs Json.asWord? ttl
          cacheCapacity := ← Json.withDefault d.cacheCapacity Json.asWord? capacity }
  | _ => none

end RuleSettings

namespace MaintenanceSettings

/-- The written form. -/
def toJson (s : MaintenanceSettings) : Json :=
  .object [("sweep_interval_secs", Json.ofWord s.sweepIntervalSecs)]

/-- The settings from their written form. -/
def ofJson?
    (surplus : Json.Surplus)
    (v : Json) :
    Option MaintenanceSettings := do
  let d : MaintenanceSettings := {}
  match ← v.slots? surplus [["sweep_interval_secs"]] with
  | [interval] =>
      some { sweepIntervalSecs := ← Json.withDefault d.sweepIntervalSecs Json.asWord? interval }
  | _ => none

end MaintenanceSettings

namespace Settings

/-- The written form. -/
def toJson (s : Settings) : Json :=
  .object
    [("index", s.index.toJson),
     ("maintenance", s.maintenance.toJson),
     ("rules", s.rules.toJson),
     ("storage", s.store.toJson)]

/-- The settings from their written form. -/
def ofJson?
    (surplus : Json.Surplus)
    (v : Json) :
    Option Settings := do
  match ← v.slots? surplus [["storage"], ["index"], ["rules"], ["maintenance"]] with
  | [store, index, rules, maintenance] =>
      some
        { store := ← Json.withDefault {} (StoreSettings.ofJson? surplus) store
          index := ← Json.withDefault {} (IndexSettings.ofJson? surplus) index
          rules := ← Json.withDefault {} (RuleSettings.ofJson? surplus) rules
          maintenance := ← Json.withDefault {} (MaintenanceSettings.ofJson? surplus) maintenance }
  | _ => none

/-- The first setting that would make a part unusable. -/
def fault? (s : Settings) : Option SettingsFault :=
  if s.store.maxTransactionOps = 0 then some .noTransactionOps
  else if s.store.idempotencyCapacity = 0 then some .noIdempotencyCapacity
  else if Text.blankOnly s.index.tenantField then some .noTenantField
  else if s.rules.cacheCapacity = 0 then some .noCacheCapacity
  else if s.maintenance.sweepIntervalSecs = 0 then some .noSweepInterval
  else none

/-- Usable settings, or the fault. -/
def validate (s : Settings) : Except SettingsFault Settings :=
  match s.fault? with
  | none => .ok s
  | some fault => .error fault

/-- Read and check settings in TOML. -/
def ofTomlText (text : String) : Except SettingsFault Settings :=
  match ((Toml.parse? text).map Toml.Value.toJson).bind (ofJson? .ignored) with
  | none => .error .unreadable
  | some s => s.validate

end Settings
end DocumentStore
