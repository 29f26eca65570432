import PriceOracle.Config
import PriceOracle.Config.Error

/-!
# Checks across the sections of a configuration

`Config.check` reports the first rule that a configuration breaks: schedule, retries, validation
bounds, oracles in their order, management interface.
-/

namespace PriceOracle.Config

/-- The schedule has a positive interval and a positive deadline. -/
def scheduleFault? (s : ScheduleConfig) : Option String :=
  if s.tickInterval = 0 then some "tick_interval_secs must be greater than zero"
  else if s.deadline = 0 then some "tick_deadline_secs must be greater than zero"
  else none

/-- The first delay is positive and at most the longest one. -/
def retryFault? (p : PublisherConfig) : Option String :=
  if p.initialBackoff = 0 ∨ p.maxBackoff < p.initialBackoff then
    some s!"publisher backoff must satisfy 0 < initial ({p.initialBackoff}) <= max ({p.maxBackoff})"
  else none

/-- The bounds of published values leave something between them. -/
def boundsFault? (p : ValidationPolicy) : Option String := do
  let min ← p.min
  let max ← p.max
  if max.lt min then some s!"validation.min {min.text} exceeds validation.max {max.text}" else none

/-- What is wrong with an oracle that follows some others. -/
def oracleFault? (earlier : List OracleConfig) (c : OracleConfig) : Option String :=
  if c.threshold = 0 then some s!"oracle '{c.id}' has a zero threshold"
  else if Destination.maxDecimals < c.destination.decimals then
    some (s!"oracle '{c.id}' has {c.destination.decimals} feed decimals; " ++
      s!"at most {Destination.maxDecimals} are supported")
  else if earlier.any (·.id == c.id) then some s!"oracle '{c.id}' is configured twice"
  else if earlier.any (·.destination.key == c.destination.key) then
    some (s!"oracle '{c.id}' publishes to {c.destination.key.text} " ++
      "which another oracle already uses")
  else none

/-- The first fault in a list of oracles that follow some others. -/
def oraclesFault? (earlier : List OracleConfig) : List OracleConfig → Option String
  | [] => none
  | c :: rest => oracleFault? earlier c <|> oraclesFault? (c :: earlier) rest

/-- An interface that is enabled has a port. -/
def apiFault? (api : Option ApiConfig) : Option String :=
  if api.any fun a => a.enabled && a.port == 0 then
    some "api.port must be set when the API is enabled"
  else none

/-- The first rule that a configuration breaks. -/
def fault? (c : Config) : Option String :=
  scheduleFault? c.schedule <|> retryFault? c.publisher <|> boundsFault? c.validation <|>
    oraclesFault? [] c.oracles <|> apiFault? c.api

/-- Checks a configuration. -/
def check (c : Config) : Except ConfigError Unit :=
  match c.fault? with
  | none => .ok ()
  | some reason => .error (.invalid reason)

end PriceOracle.Config
