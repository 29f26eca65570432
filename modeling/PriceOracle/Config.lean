import PriceOracle.Oracle
import PriceOracle.Setting
import PriceOracle.Validation

/-!
# Service configuration

What an operator writes down: the schedule, the backends with their settings sections, retries,
validation, the management interface, and the oracles to register at the start.
-/

namespace PriceOracle

/-- The name of the service and its schedule, in seconds. -/
structure ScheduleConfig where
  name : String
  tickInterval : UInt64
  /-- The time that one tick may take; the tick interval unless given. -/
  tickDeadline : Option UInt64

/-- A backend chosen by name, and its settings. -/
structure BackendConfig where
  backend : String
  settings : Setting

/-- Retries of a publication, with delays in milliseconds, and the settings of the feed. -/
structure PublisherConfig where
  maxRetries : UInt32
  initialBackoff : UInt64
  maxBackoff : UInt64
  settings : Setting

/-- The management interface. -/
structure ApiConfig where
  enabled : Bool
  host : String
  port : UInt16
  /-- The token of the one caller who may manage oracles; without it everyone may. -/
  ownerToken : Option String

/-- The whole configuration of the service. -/
structure Config where
  schedule : ScheduleConfig
  storage : BackendConfig
  /-- The identity that publishes where a destination names no key of its own. -/
  account : Option BackendConfig
  fetcher : Setting
  publisher : PublisherConfig
  validation : ValidationPolicy
  api : Option ApiConfig
  oracles : List OracleConfig

namespace ScheduleConfig

def default : ScheduleConfig := ⟨"oracle", 60, none⟩

/-- The time that one tick may take, in seconds. -/
def deadline (s : ScheduleConfig) : UInt64 := s.tickDeadline.getD s.tickInterval

end ScheduleConfig

def PublisherConfig.default : PublisherConfig := ⟨3, 500, 10000, Setting.empty⟩

def ApiConfig.default : ApiConfig := ⟨false, "127.0.0.1", 8080, none⟩

end PriceOracle
