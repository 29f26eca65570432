import PriceOracle.Config
import PriceOracle.Crypto.Secp256k1
import PriceOracle.Cycle
import PriceOracle.Feed.Settings
import PriceOracle.Management
import PriceOracle.Source.Settings

/-!
# The engine

A service at work: what its cycles go by, who may manage it, and the cycles that a tick starts.
-/

namespace PriceOracle

/-- Why a service is not built. -/
inductive EngineError where
  | configuration (reason : String)
  | service (reason : String)
  | registry (e : RegistryError)
  deriving DecidableEq

namespace EngineError

/-- The wording of a service that is not built. -/
def message : EngineError → String
  | configuration reason => s!"Configuration error: {reason}"
  | service reason => s!"Service error: {reason}"
  | registry e => e.message

/-- The wording of the failure and of what lies behind it, outermost first. -/
def causes (e : EngineError) : List String :=
  match e with
  | registry (.storage inner) => [e.message, inner.message]
  | _ => [e.message]

end EngineError

/-- A service as it was built from its configuration. -/
structure Engine where
  config : Config
  authorization : Authorization
  /-- The key that signs where a destination names none of its own. -/
  account : Option Secp256k1.PrivateKey

namespace Engine

open Surroundings

/-- What the cycles of a configuration go by. -/
def policyOf (c : Config) : Cycle.Policy :=
  ⟨Source.limitOf c.fetcher, Feed.depthOf c.publisher.settings, c.validation,
    .ofConfig c.publisher⟩

/-- What the cycles go by. -/
def policy (e : Engine) : Cycle.Policy := policyOf e.config

/-- Who may manage the oracles of a configuration. -/
def authorizationOf (c : Config) : Authorization := .ofToken? (c.api.bind ApiConfig.ownerToken)

/-- The time between two ticks. -/
def period (e : Engine) : Duration := .ofSeconds e.config.schedule.tickInterval.toNat

/-- The engine ticks only where some time passes between two ticks. -/
def checkPeriod (e : Engine) : Except EngineError Unit :=
  if e.config.schedule.tickInterval = 0 then
    .error (.configuration "tick interval must be positive")
  else .ok ()

/-- The time that a tick may take. -/
def patience (e : Engine) : Duration := .ofSeconds e.config.schedule.deadline.toNat

/-- One cycle of an oracle, with its id. -/
def cycle (e : Engine) (deadline : Duration) (id : OracleId) :
    Action (OracleId × Except RegistryError Outcome) := do
  return (id, ← Cycle.run e.policy id deadline)

/-- The cycles of a tick that starts now, one for each of some oracles, under one deadline. -/
def cycles (e : Engine) (now : Duration) (ids : List OracleId) :
    List (Action (OracleId × Except RegistryError Outcome)) :=
  ids.map (e.cycle ⟨now.nanos + e.patience.nanos⟩)

/-- Registers the configured oracles that are not there. -/
def seed (e : Engine) : Action (Except EngineError Nat) := do
  match ← (Management.seed e.config.oracles).run with
  | .ok n => return .ok n
  | .error e => return .error (.service e.message)

end Engine

end PriceOracle
