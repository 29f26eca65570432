import PriceOracle.Authorization
import PriceOracle.Publication
import PriceOracle.Surroundings

/-!
# Managing oracles

What operators may do with oracles. Whoever changes something has to be authorized. Changes of an
oracle that is there wait for its lock, so that they never run beside one of its cycles.
-/

namespace PriceOracle

/-- Why a management call fails. -/
inductive ServiceError where
  | unauthorized
  | registry (e : RegistryError)
  | publish (e : PublishError)
  deriving DecidableEq

/-- The wording of a failed call. -/
def ServiceError.message : ServiceError → String
  | unauthorized => "Caller is not authorized to manage oracles"
  | registry e => e.message
  | publish e => s!"Publisher error: {e.message}"

/-- An oracle as operators see it. -/
structure OracleView where
  config : OracleConfig
  bookkeeping : Bookkeeping
  stage : Stage

namespace Management

open Surroundings

/-- A management call. -/
abbrev Call (α : Type) := Attempt interface ServiceError α

/-- Whoever calls: the token shown, if any. -/
abbrev Caller := Option String

/-- Goes on only for a caller who may manage oracles. -/
def authorize (auth : Authorization) (caller : Caller) : Call Unit :=
  Attempt.ofExcept (if auth.admits caller then .ok () else .error .unauthorized)

/-- A use of the registry. -/
def registry (step : Step α) : Call α := ExceptT.adapt .registry step

/-- A use of a feed. -/
def onFeed (use : Feed.Use α) : Call α := ExceptT.adapt .publish (ExceptT.mk (feed use))

/-- Makes a call while the lock of an oracle is held, once it is free. -/
def locked (id : OracleId) (call : Call α) : Call α := ExceptT.mk do
  let slot ← slot id
  take slot
  let outcome ← call.run
  release slot
  return outcome

/-- Registers an oracle that is not there. -/
def registerRow (c : OracleConfig) : Call Unit :=
  registry (ExceptT.mk (ask (.registry (.register c))))

/-- Registers an oracle. -/
def register (auth : Authorization) (caller : Caller) (c : OracleConfig) : Call OracleId := do
  authorize auth caller
  registerRow c
  emit (.registered c.id)
  return c.id

/-- Replaces the configuration of an oracle. -/
def update (auth : Authorization) (caller : Caller) (c : OracleConfig) : Call Unit := do
  authorize auth caller
  locked c.id do
    registry (ExceptT.mk (ask (.registry (.update c))))
    emit (.updated c.id)

/-- Takes an oracle out. Its lock is given back before it is forgotten. -/
def remove (auth : Authorization) (caller : Caller) (id : OracleId) : Call Unit := do
  authorize auth caller
  locked id (registry (ExceptT.mk (ask (.registry (.remove id)))))
  forget id
  leave id
  emit (.removed id)

/-- An oracle with its stage. -/
def view (r : Row) (id : OracleId) : Action OracleView := do
  return ⟨r.config, r.bookkeeping, ← stage id⟩

/-- One oracle. -/
def get (id : OracleId) : Call OracleView := do
  let r ← registry (row id)
  view r id

/-- The views of some rows. -/
def views : List Row → Action (List OracleView)
  | [] => return []
  | r :: rest => do return (← view r r.config.id) :: (← views rest)

/-- All oracles in the order of registration. -/
def list : Action (List OracleView) := do views (← ask (.registry .rows))

/-- The last value that a feed's latest round stands for; none on an empty feed. -/
def valueOf (d : Destination) (latest : FeedRound) : Except PublishError (Option Decimal) :=
  if latest.round = 0 then .ok none
  else (Publication.toRecord d latest).map fun r => some r.answer

/-- The bookkeeping of an oracle that was aligned with its feed. -/
def aligned (latest : FeedRound) (value : Option Decimal) : Bookkeeping :=
  { Bookkeeping.initial with lastRound := latest.round, lastValue := value }

/-- Aligns the bookkeeping of an oracle with its feed, which also lifts a halt. -/
def resync (auth : Authorization) (caller : Caller) (id : OracleId) : Call Bookkeeping := do
  authorize auth caller
  locked id do
    let r ← registry (row id)
    let latest ← onFeed (Feed.latestRound r.config.destination)
    let value ← onFeed (Attempt.ofExcept (valueOf r.config.destination latest))
    let b ← registry (revise id fun _ => aligned latest value)
    emit (.resynced id latest.round)
    return b

/-- The latest round on the feed of an oracle; none before the first. -/
def latestRound (id : OracleId) : Call (Option RoundRecord) := do
  let r ← registry (row id)
  onFeed (Publication.latestRecord r.config.destination)

/-- Registers those of some oracles that are not there; gives their number. -/
def seed : List OracleConfig → Call Nat
  | [] => return 0
  | c :: rest => do
    match ← (row c.id).run with
    | .ok _ => seed rest
    | .error (.notFound _) =>
      registerRow c
      emit (.registered c.id)
      return (← seed rest) + 1
    | .error e => throw (.registry e)

end Management

end PriceOracle
