import PriceOracle.Simulation.Opening
import PriceOracle.Simulation.Script

/-!
# Sessions

A service on a simulated world, as somebody sees it who sends it one thing after the other: what it
goes by, the locks held from outside, and what was told of it last.
-/

namespace PriceOracle.Simulation

/-- How a service is opened. -/
inductive Opening where
  /-- By hand, on a medium, with what its cycles go by and a bus of a capacity. -/
  | direct (medium : Medium) (policy : Cycle.Policy) (authorization : Authorization)
      (capacity : Nat)
  /-- From a configuration. -/
  | built (parts : Parts Medium) (config : Config)

/-- A session. -/
structure Session where
  opening : Opening
  world : World
  /-- Whether the service is open. -/
  isOpen : Bool
  engine : Option Engine
  policy : Cycle.Policy
  authorization : Authorization
  /-- The locks held from outside. -/
  held : Dict OracleId Slot
  /-- The bookkeeping of each oracle as it was last told. -/
  told : List (OracleId × Bookkeeping)

namespace Session

/-- A session before its service is opened. -/
def ofOpening (opening : Opening) (world : World) : Session :=
  ⟨opening, world, false, none, ⟨⟨0⟩, 1, .default, .ofConfig .default⟩, .anyone, [], []⟩

/-- Opens the service, again where it was open. Locks held from outside are dropped. -/
def openAgain (s : Session) : Except EngineError Unit × Session :=
  match s.opening with
  | .direct medium policy authorization capacity =>
    let (outcome, world) := s.world.openOn medium capacity
    (outcome.mapError .registry,
      { s with world, policy, authorization, held := [], isOpen := outcome.toBool })
  | .built parts config =>
    match s.world.openFrom parts config with
    | (.error e, world) => (.error e, { s with world, held := [], isOpen := false, engine := none })
    | (.ok e, world) =>
      (.ok (), { s with
        world, held := [], isOpen := true, engine := some e, policy := e.policy,
        authorization := e.authorization })

/-- Changes the storage. -/
def withBackend (change : Backend → Backend) (s : Session) : Session :=
  { s with world := { s.world with backend := change s.world.backend } }

/-- Runs an action of the service; none when it waits for ever. -/
def run (action : Surroundings.Action α) (s : Session) : Option α × Session :=
  let (outcome, world) := s.world.run action
  (outcome, { s with world })

/-- One cycle of an oracle that may take some time from now on. -/
def cycle (id : OracleId) (limit : Duration) (s : Session) :
    Surroundings.Action (Except RegistryError Outcome) :=
  Cycle.run s.policy id ⟨s.world.clock.nanos + limit.nanos⟩

/-- Some cycles of an oracle side by side. -/
def cycles (n : Nat) (id : OracleId) (limit : Duration) (s : Session) :
    List (Option (Except RegistryError Outcome)) × Session :=
  let (outcomes, world) := s.world.runAll (List.replicate n (s.cycle id limit))
  (outcomes, { s with world })

/-- The cycles that a tick of an engine starts in a world. -/
def tickOf (e : Engine) (w : World) :
    List (Surroundings.Action (OracleId × Except RegistryError Outcome)) :=
  e.cycles w.clock w.table.order

/-- One tick: the outcomes of the cycles that neither failed nor broke off, by id. -/
def tick (e : Engine) (s : Session) : List (OracleId × Outcome) × Session :=
  let (outcomes, world) := s.world.runAll (tickOf e s.world)
  let finished := outcomes.filterMap fun
    | some (id, .ok o) => if o = .overflowed then none else some (id, o)
    | _ => none
  (Script.sortedBy (·.1) finished, { s with world })

/-- Runs the engine until a shutdown. -/
def runEngine (e : Engine) (total : Duration) (s : Session) : Except EngineError Unit × Session :=
  match e.checkPeriod with
  | .error e => (.error e, s)
  | .ok () => (.ok (), { s with world := s.world.runUntil e.period total e.patience (tickOf e) })

/-- Takes the lock of an oracle from outside; tells whether it was free. -/
def hold (id : OracleId) (s : Session) : Bool × Session :=
  let (slot, locks) := s.world.locks.slot id
  let (taken, locks) := locks.tryTake slot
  (taken, { s with
    world := { s.world with locks }, held := if taken then s.held.set id slot else s.held })

/-- Gives the lock of an oracle back; tells whether it was held from outside. -/
def unhold (id : OracleId) (s : Session) : Bool × Session :=
  match s.held.get? id with
  | some slot => (true, { s with
      world := { s.world with locks := s.world.locks.release slot }, held := s.held.unset id })
  | none => (false, s)

/-- What happened since it was last told. -/
structure News where
  /-- How many events were missed, where some were. -/
  lags : List Nat
  events : List Event
  calls : List Json
  /-- The bookkeeping that changed; none for an oracle that is gone. -/
  bookkeeping : List (OracleId × Option Bookkeeping)

/-- Whether bookkeeping is written differently now. -/
def differs (told : List (OracleId × Bookkeeping)) (entry : OracleId × Bookkeeping) : Bool :=
  (told.lookup entry.1).map (·.toJson.text) != some entry.2.toJson.text

/-- Tells what happened; events and calls are sorted by oracle and place. -/
def tell (s : Session) : News × Session :=
  let (receipts, world) := s.world.drainEvents
  let lags := receipts.filterMap fun
    | .lagged n => some n
    | _ => none
  let events := receipts.filterMap fun
    | .event e => some e
    | _ => none
  let (calls, world) := Script.takeCalls world
  let rows := if s.isOpen then world.table.inOrder.map fun r => (r.config.id, r.bookkeeping) else []
  let changed := (rows.filter (differs s.told)).map fun (id, b) => (id, some b)
  let gone := (s.told.filter fun (id, _) => (rows.lookup id).isNone).map fun (id, _) => (id, none)
  (⟨lags, Script.sortedBy Event.oracleId events, calls, changed ++ gone⟩,
    { s with world, told := rows })

end Session

end PriceOracle.Simulation
