import PriceOracle.Event
import PriceOracle.Feed
import PriceOracle.Lock
import PriceOracle.Registry
import PriceOracle.Source.Read

/-!
# The surroundings of the service

Everything that cycles and management calls ask for: the registry, sources, feeds, clocks, pauses,
the event bus, the stage of each oracle, and the locks. Each request is one step; whatever else
goes on happens between requests.
-/

namespace PriceOracle

/-- Where the current cycle of an oracle is. -/
inductive Stage where
  | idle
  | fetching
  | validating
  | publishing
  | recorded
  deriving DecidableEq

/-- The name of a stage, as operators see it. -/
def Stage.name : Stage → String
  | idle => "idle"
  | fetching => "fetching"
  | validating => "validating"
  | publishing => "publishing"
  | recorded => "recorded"

namespace Surroundings

/-- What the service can ask for. -/
inductive Request where
  | registry (r : Registry.Request)
  | source (r : Source.Request)
  | feed (r : Feed.Request)
  /-- The time of day, in seconds. -/
  | unixTime
  /-- The time that has passed since some start. -/
  | elapsed
  /-- A random delay between two bounds. -/
  | delay (shortest longest : Duration)
  | sleep (d : Duration)
  /-- Tells all readers of events. -/
  | emit (e : Event)
  | stage (id : OracleId)
  | enter (id : OracleId) (s : Stage)
  /-- Drops the stage of an oracle. -/
  | leave (id : OracleId)
  /-- The lock of an oracle. -/
  | slot (id : OracleId)
  /-- Takes a lock if it is free. -/
  | tryTake (s : Slot)
  /-- Waits for a lock and takes it. -/
  | take (s : Slot)
  | release (s : Slot)
  /-- Drops the lock of an oracle. -/
  | forget (id : OracleId)

/-- The answer to each request. -/
def Request.Reply : Request → Type
  | registry r => r.Reply
  | source r => r.Reply
  | feed r => r.Reply
  | unixTime => UInt64
  | elapsed => Duration
  | delay _ _ => Duration
  | stage _ => Stage
  | slot _ => Slot
  | tryTake _ => Bool
  | sleep _ | emit _ | enter _ _ | leave _ | take _ | release _ | forget _ => Unit

/-- The interface to the surroundings. -/
def interface : Interface := ⟨Request, Request.Reply⟩

/-- A program of the service. -/
abbrev Action (α : Type) := Program interface α

/-- Asks the surroundings. -/
def ask (r : Request) : Action r.Reply := Program.request (I := interface) r

/-- The time of day, in seconds. -/
def unixTime : Action UInt64 := ask .unixTime

/-- The time that has passed since some start. -/
def elapsed : Action Duration := ask .elapsed

/-- A random delay between two bounds. -/
def delay (shortest longest : Duration) : Action Duration := ask (.delay shortest longest)

def sleep (d : Duration) : Action Unit := ask (.sleep d)

/-- Tells all readers of events. -/
def emit (e : Event) : Action Unit := ask (.emit e)

/-- The stage of an oracle. -/
def stage (id : OracleId) : Action Stage := ask (.stage id)

/-- Sets the stage of an oracle. -/
def enter (id : OracleId) (s : Stage) : Action Unit := ask (.enter id s)

/-- Drops the stage of an oracle. -/
def leave (id : OracleId) : Action Unit := ask (.leave id)

/-- The lock of an oracle. -/
def slot (id : OracleId) : Action Slot := ask (.slot id)

/-- Takes a lock if it is free. -/
def tryTake (s : Slot) : Action Bool := ask (.tryTake s)

/-- Waits for a lock and takes it. -/
def take (s : Slot) : Action Unit := ask (.take s)

/-- Gives a lock back. -/
def release (s : Slot) : Action Unit := ask (.release s)

/-- Drops the lock of an oracle. -/
def forget (id : OracleId) : Action Unit := ask (.forget id)

/-- A use of a feed. -/
def feed (use : Feed.Use α) : Action (Except PublishError α) :=
  Program.through (I := Feed.interface) (J := interface) (fun r => ask (.feed r)) use.run

/-- A read of a source. -/
def source (read : Program Source.interface α) : Action α :=
  Program.through (I := Source.interface) (J := interface) (fun r => ask (.source r)) read

/-- A part of the service that the registry may refuse. -/
abbrev Step (α : Type) := Attempt interface RegistryError α

/-- An action as a step that is not refused. -/
def act (a : Action α) : Step α := ExceptT.lift a

/-- The row of an oracle. -/
def row (id : OracleId) : Step Row := ExceptT.mk (ask (.registry (.row id)))

/-- Changes the bookkeeping of an oracle, and tells what it is then. -/
def revise (id : OracleId) (change : Bookkeeping → Bookkeeping) : Step Bookkeeping :=
  ExceptT.mk (ask (.registry (.revise id change)))

end Surroundings

end PriceOracle
