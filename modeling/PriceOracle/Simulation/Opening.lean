import PriceOracle.Assembly
import PriceOracle.Simulation.Threads

/-!
# Opening simulated services

A service is opened on a world: by hand on one of its media, or from a configuration as the program
itself does. What a former service left outside storage is gone then.
-/

namespace PriceOracle.Simulation

/-- The medium of a choice of storage. -/
def Medium.ofChoice : StorageChoice → Medium
  | .memory => memory
  | .directory path => directory path

/-- The storage backends of a simulated machine: those of the program, and the scripted one. -/
def Medium.named? : String → Option (Setting → Except StorageError Medium)
  | "fake" => some fun _ => .ok scripted
  | name => (StorageChoice.named? name).map fun make s => ofChoice <$> make s

namespace World

/-- A world in which no service runs. -/
def idle (w : World) : World :=
  { w with table := .empty, locks := .empty, stages := [], bus := .ofCapacity 1, calls := [] }

/-- Starts a bus of a capacity and listens to it. -/
def listen (capacity : Nat) (w : World) : World :=
  { w with bus := ((EventBus.ofCapacity capacity).subscribe).2 }

/-- Opens a service by hand on a medium. -/
def openOn (medium : Medium) (capacity : Nat) (w : World) : Except RegistryError Unit × World :=
  let w := (w.idle.listen capacity)
  let (loaded, backend) := (w.backend.mount medium).run Registry.load.run
  match loaded with
  | .ok table => (.ok (), { w with table, backend })
  | .error e => (.error e, { w with backend })

/-- Answers what building a service asks for. -/
def answerAssembly : (r : Assembly.Request Medium) → World → r.Reply × World
  | .note _, w => ((), w)
  | .read path, w => ((w.backend.files.read path).toOption, w)
  | .mount medium, w => ((), { w with backend := w.backend.mount medium })
  | .storage r, w =>
    let (reply, backend) := w.backend.answer r
    (reply, { w with backend })

/-- Registers the configured oracles of a service. -/
def seed (engine : Engine) (w : World) : Except EngineError Engine × World :=
  match w.run engine.seed with
  | (some (.error e), w) => (.error e, w)
  | (_, w) => (.ok engine, w)

/-- Opens a service from its configuration. Nobody listens before it is open. -/
def openFrom (parts : Parts Medium) (c : Config) (w : World) : Except EngineError Engine × World :=
  match (Assembly.assemble parts c).run.run answerAssembly w.idle with
  | (.error e, w) => (.error e, w)
  | (.ok (engine, table), w) =>
    let (outcome, w) := seed engine { w with table }
    (outcome, w.listen EventBus.defaultCapacity)

end World

end PriceOracle.Simulation
