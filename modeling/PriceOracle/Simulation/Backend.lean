import PriceOracle.Simulation.Files
import PriceOracle.Storage.File
import PriceOracle.Storage.Memory

/-!
# Simulated storage

The storage behind a simulated service: a map that is lost at the end, a directory, or a map whose
requests can be made to fail.
-/

namespace PriceOracle.Simulation

open Storage (Request Memory)

/-- A failure that waits for a kind of request and lets some of them pass. -/
structure PlannedFailure where
  method : String
  skip : Nat

/-- The name of a kind of request to storage. -/
def storageMethod : Request → String
  | .get _ => "get"
  | .set _ _ => "set"
  | .delete _ => "delete"
  | .holds _ => "exists"

/-- Counts a request of a kind: the first failure that is due is taken out, and all others of this
kind come one request nearer. Tells whether the request fails. -/
def countRequest (method : String) : (found : Bool) → List PlannedFailure →
    Bool × List PlannedFailure
  | found, [] => (found, [])
  | found, p :: rest =>
    if p.method = method then
      if p.skip = 0 ∧ found = false then countRequest method true rest
      else
        let (found, rest) := countRequest method found rest
        (found, { p with skip := p.skip - 1 } :: rest)
    else
      let (found, rest) := countRequest method found rest
      (found, p :: rest)

/-- A request to storage that fails. -/
def refuse (e : StorageError) : (r : Request) → r.Reply
  | .get _ => .error e
  | .set _ _ => .error e
  | .delete _ => .error e
  | .holds _ => .error e

/-- A place where storage keeps its records. -/
inductive Medium where
  | memory
  | directory (path : String)
  | scripted

/-- All storage of a simulated machine, and the medium in use. -/
structure Backend where
  memory : Memory
  files : Files
  /-- The directories that storage was kept in. -/
  directories : Dict Path Directory
  scripted : Memory
  failures : List PlannedFailure
  medium : Medium

namespace Backend

/-- A machine with some files, on which nothing was stored. -/
def ofFiles (files : Files) : Backend := ⟨[], files, [], [], [], .memory⟩

/-- Takes a medium into use. Memory is empty at first; all other media keep their records. -/
def mount (medium : Medium) (b : Backend) : Backend := { b with memory := [], medium }

/-- The directory at a path. -/
def directory (b : Backend) (path : String) : Directory :=
  (b.directories.get? (Path.ofText path)).getD (b.files.directory path)

/-- Answers a request to the directory at a path. -/
def answerFiles (path : String) (r : Request) (b : Backend) : r.Reply × Backend :=
  let (reply, d) := (Storage.File.answer r).run Directory.answer (b.directory path)
  (reply, { b with directories := b.directories.set (Path.ofText path) d })

/-- Answers a request by the script. -/
def answerScripted (r : Request) (b : Backend) : r.Reply × Backend :=
  let (fails, failures) := countRequest (storageMethod r) false b.failures
  if fails then
    (refuse (.backend s!"injected {storageMethod r} failure") r, { b with failures })
  else
    let (reply, scripted) := Memory.answer r b.scripted
    (reply, { b with scripted, failures })

/-- Answers a request. -/
def answer (r : Request) (b : Backend) : r.Reply × Backend :=
  match b.medium with
  | .memory =>
    let (reply, memory) := Memory.answer r b.memory
    (reply, { b with memory })
  | .directory path => b.answerFiles path r
  | .scripted => b.answerScripted r

/-- Runs a use of storage. -/
def run (p : Program Storage.interface α) (b : Backend) : α × Backend := p.run answer b

end Backend

end PriceOracle.Simulation
