import PriceOracle.Config
import PriceOracle.Oracle.Codec

/-!
# The document form of configurations

`Config.decode` reads a configuration from a document, filling in what it leaves out;
`Config.toJson` writes all of it down.
-/

namespace PriceOracle

namespace ScheduleConfig

def decode : Document → Decoded ScheduleConfig :=
  Record.decode ["name", "tick_interval_secs", "tick_deadline_secs"] fun r =>
    ScheduleConfig.mk <$> r.withDefault "name" default.name Document.asString
      <*> r.withDefault "tick_interval_secs" default.tickInterval Document.asUInt64
      <*> r.optional "tick_deadline_secs" Document.asUInt64

def toJson (s : ScheduleConfig) : Json :=
  .obj [("name", .str s.name), ("tick_interval_secs", .nat s.tickInterval.toNat),
    ("tick_deadline_secs", .ofOption (fun n => .nat n.toNat) s.tickDeadline)]

end ScheduleConfig

/-- The settings of a section, empty unless given. -/
def Record.settings (r : Record) : Decoded Setting :=
  r.withDefault "config" Setting.empty Setting.decode

namespace BackendConfig

def decode : Document → Decoded BackendConfig :=
  Record.decode ["backend", "config"] fun r =>
    BackendConfig.mk <$> r.required "backend" Document.asString <*> r.settings

def toJson (b : BackendConfig) : Json :=
  .obj [("backend", .str b.backend), ("config", b.settings.toJson)]

end BackendConfig

namespace PublisherConfig

def decode : Document → Decoded PublisherConfig :=
  Record.decode ["max_retries", "initial_backoff_ms", "max_backoff_ms", "config"] fun r =>
    PublisherConfig.mk <$> r.withDefault "max_retries" default.maxRetries Document.asUInt32
      <*> r.withDefault "initial_backoff_ms" default.initialBackoff Document.asUInt64
      <*> r.withDefault "max_backoff_ms" default.maxBackoff Document.asUInt64
      <*> r.settings

def toJson (p : PublisherConfig) : Json :=
  .obj [("max_retries", .nat p.maxRetries.toNat),
    ("initial_backoff_ms", .nat p.initialBackoff.toNat),
    ("max_backoff_ms", .nat p.maxBackoff.toNat), ("config", p.settings.toJson)]

end PublisherConfig

namespace ValidationPolicy

def decode : Document → Decoded ValidationPolicy :=
  Record.decode ["allow_zero", "allow_negative", "min", "max"] fun r =>
    ValidationPolicy.mk <$> r.withDefault "allow_zero" false Document.asBool
      <*> r.withDefault "allow_negative" false Document.asBool
      <*> r.optional "min" Document.asDecimal
      <*> r.optional "max" Document.asDecimal

def toJson (p : ValidationPolicy) : Json :=
  .obj [("allow_zero", .bool p.allowZero), ("allow_negative", .bool p.allowNegative),
    ("min", .ofOption Decimal.toJson p.min), ("max", .ofOption Decimal.toJson p.max)]

end ValidationPolicy

namespace ApiConfig

def decode : Document → Decoded ApiConfig :=
  Record.decode ["enabled", "host", "port", "owner_token"] fun r =>
    ApiConfig.mk <$> r.withDefault "enabled" default.enabled Document.asBool
      <*> r.withDefault "host" default.host Document.asString
      <*> r.withDefault "port" default.port Document.asUInt16
      <*> r.optional "owner_token" Document.asString

def toJson (a : ApiConfig) : Json :=
  .obj [("enabled", .bool a.enabled), ("host", .str a.host), ("port", .nat a.port.toNat),
    ("owner_token", .ofOption .str a.ownerToken)]

end ApiConfig

namespace Config

/-- The names of the sections. -/
def sections : List String :=
  ["oracle", "storage", "account", "fetcher", "publisher", "validation", "api", "oracles"]

/-- A section that holds nothing but settings. -/
def decodeSection : Document → Decoded Setting := Record.decode ["config"] Record.settings

def decode : Document → Decoded Config :=
  Record.decode sections fun r =>
    Config.mk <$> r.withDefault "oracle" ScheduleConfig.default ScheduleConfig.decode
      <*> r.required "storage" BackendConfig.decode
      <*> r.optional "account" BackendConfig.decode
      <*> r.withDefault "fetcher" Setting.empty decodeSection
      <*> r.withDefault "publisher" PublisherConfig.default PublisherConfig.decode
      <*> r.withDefault "validation" ValidationPolicy.default ValidationPolicy.decode
      <*> r.optional "api" ApiConfig.decode
      <*> r.withDefault "oracles" [] (Document.asList OracleConfig.decode)

def toJson (c : Config) : Json :=
  .obj [("oracle", c.schedule.toJson), ("storage", c.storage.toJson),
    ("account", .ofOption BackendConfig.toJson c.account),
    ("fetcher", .obj [("config", c.fetcher.toJson)]), ("publisher", c.publisher.toJson),
    ("validation", c.validation.toJson), ("api", .ofOption ApiConfig.toJson c.api),
    ("oracles", .arr (c.oracles.map OracleConfig.toJson))]

end Config

end PriceOracle
