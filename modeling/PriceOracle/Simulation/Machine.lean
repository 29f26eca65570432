import PriceOracle.CommandLine
import PriceOracle.Node
import PriceOracle.Simulation.Opening

/-!
# Simulated machines

A machine on which the program is called from its command line: variables, files, and what the
program said. A service that is started there is shut down at once. No node can be reached from
it.
-/

namespace PriceOracle.Simulation

/-- A machine. -/
structure Machine where
  environment : String → Option String
  world : World
  log : List LogLine
  /-- What the program complained about: what it was doing, and what went wrong. -/
  complaints : List (String × List String)

namespace Machine

/-- Answers a request of the program. -/
def answer : (r : CommandLine.Request) → Machine → r.Reply × Machine
  | .lookup name, m => (m.environment name, m)
  | .read path, m => (m.world.backend.files.read path, m)
  | .note line, m => ((), { m with log := m.log ++ [line] })
  | .complain doing causes, m => ((), { m with complaints := m.complaints ++ [(doing, causes)] })
  | .explain, m => ((), m)
  | .mount choice, m =>
    ((), { m with world := { m.world with backend := m.world.backend.mount (.ofChoice choice) } })
  | .storage r, m =>
    let (reply, backend) := m.world.backend.answer r
    (reply, { m with world := { m.world with backend } })
  | .serve engine table, m =>
    let (outcome, world) := World.seed engine { m.world with table }
    (outcome.map fun _ => (), { m with world })

/-- Calls the program with some arguments; gives the exit code. -/
def call (args : List String) (m : Machine) : UInt32 × Machine :=
  (CommandLine.run args).run answer m

end Machine

/-- What a connection says that was not made. -/
def unreachable : String := "connection refused"

/-- Answers requests where no node can be reached; time stands still. -/
def unreachableNode (files : Files) : (r : Node.Request) → Unit → r.Reply × Unit
  | .chainId _, s => (.error unreachable, s)
  | .call _ _ _, s => (.error unreachable, s)
  | .send _ _ _ _ _, s => (.error unreachable, s)
  | .receipt _ _, s => (.error unreachable, s)
  | .transaction _ _, s => (.error unreachable, s)
  | .blockNumber _, s => (.error unreachable, s)
  | .elapsed, s => ((⟨0⟩ : Duration), s)
  | .sleep _, s => ((), s)
  | .read path, s => ((files.read path).toOption, s)

end PriceOracle.Simulation
