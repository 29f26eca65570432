import PriceOracle.CommandLine
import PriceOracle.Storage.Memory
import Std.Time.DateTime.Timestamp

/-!
# The program

`main` answers what `CommandLine.run` asks for on the machine that it runs on: variables, files,
storage, clocks and pauses. It has no way to the network: to a service at work every source and
every feed is out of reach. Cycles run one after the other, so that no lock is ever taken twice.
-/

namespace PriceOracle.Main

/-- The storage in use, the records kept in memory, and the registry. -/
structure Machine where
  storage : IO.Ref StorageChoice
  records : IO.Ref Storage.Memory
  table : IO.Ref Table

/-- What a failed operation on a file means. -/
def fileError : IO.Error → FileError
  | .noFileOrDirectory .. => .notFound
  | .inappropriateType _ code _ => if code = 21 then .isDirectory else .notADirectory
  | .invalidArgument .. => .nameTooLong
  | e => .other e.toString

/-- The outcome of an operation on a file. -/
def attempt (operation : IO α) : IO (Except FileError α) := do
  match ← operation.toBaseIO with
  | .ok a => return .ok a
  | .error e => return .error (fileError e)

/-- Whether a file can be read. -/
def holds (path : String) : IO (Except FileError Bool) := do
  match ← attempt (IO.FS.readBinFile path) with
  | .ok _ => return .ok true
  | .error .notFound => return .ok false
  | .error e => return .error e

/-- Answers what is asked of a directory. -/
def answerDirectory (dir : String) : (r : Directory.Request) → IO r.Reply
  | .read name => attempt (IO.FS.readBinFile s!"{dir}/{name}")
  | .create => attempt (IO.FS.createDirAll dir)
  | .write name content => attempt (IO.FS.writeBinFile s!"{dir}/{name}" content)
  | .rename old new => attempt (IO.FS.rename s!"{dir}/{old}" s!"{dir}/{new}")
  | .remove name => attempt (IO.FS.removeFile s!"{dir}/{name}")
  | .holds name => holds s!"{dir}/{name}"

/-- Answers what is asked of the storage in use. -/
def answerStorage (m : Machine) (r : Storage.Request) : IO r.Reply := do
  match ← m.storage.get with
  | .directory path => (Storage.File.answer r).runIn (answerDirectory path)
  | .memory =>
    let (reply, records) := Storage.Memory.answer r (← m.records.get)
    m.records.set records
    return reply

/-- What is said about everything behind the network. -/
def outOfReach : String := "the network is out of reach"

/-- The answer of a source out of reach. -/
def answerSource : (r : Source.Request) → r.Reply
  | .get _ _ => some (.error (.transport outOfReach))
  | .call _ _ _ _ => some (.error (.transport outOfReach))

/-- The answer of a feed out of reach. -/
def answerFeed : (r : Feed.Request) → r.Reply
  | .latestRound _ => .error (.network outOfReach)
  | .roundData _ _ => .error (.network outOfReach)
  | .submit _ _ => .error (.network outOfReach)
  | .receipt _ _ => .error (.network outOfReach)
  | .isKnown _ _ => .error (.network outOfReach)
  | .confirmation _ _ _ => .error (.network outOfReach)

/-- The time of day, in seconds. -/
def unixTime : IO UInt64 := do
  let now ← Std.Time.Timestamp.now
  return UInt64.ofNat now.toSecondsSinceUnixEpoch.val.toNat

/-- The time that has passed since some start. -/
def elapsed : IO Duration := return ⟨← IO.monoNanosNow⟩

/-- Pauses. -/
def sleep (d : Duration) : IO Unit := IO.sleep (UInt32.ofNat d.millis)

/-- Answers what a service at work asks for. -/
def answerService (m : Machine) : (r : Surroundings.Request) → IO r.Reply
  | .registry r => do
    let (reply, table) ← (Registry.answer r (← m.table.get)).runIn (answerStorage m)
    m.table.set table
    return reply
  | .source r => return answerSource r
  | .feed r => return answerFeed r
  | .unixTime => unixTime
  | .elapsed => elapsed
  | .delay shortest longest => return ⟨← IO.rand shortest.nanos longest.nanos⟩
  | .sleep d => sleep d
  | .stage _ => return Stage.idle
  | .slot _ => return (0 : Slot)
  | .tryTake _ => return true
  | .emit _ => return ()
  | .enter _ _ => return ()
  | .leave _ => return ()
  | .take _ => return ()
  | .release _ => return ()
  | .forget _ => return ()

/-- Runs the cycles of one tick after the other, until the process ends. -/
partial def tick (m : Machine) (e : Engine) : IO Unit := do
  let begun ← elapsed
  for cycle in e.cycles begun (← m.table.get).order do
    let _ ← cycle.runIn (answerService m)
  let taken := (← elapsed).nanos - begun.nanos
  sleep ⟨e.period.nanos - taken⟩
  tick m e

/-- Runs a service. -/
def serve (m : Machine) (e : Engine) (table : Table) : IO (Except EngineError Unit) := do
  m.table.set table
  match ← e.seed.runIn (answerService m) with
  | .error e => return .error e
  | .ok _ =>
    match e.checkPeriod with
    | .error e => return .error e
    | .ok () =>
      tick m e
      return .ok ()

/-- Writes a line of the log. -/
def note (line : LogLine) : IO Unit := do
  IO.println s!"{line.level.name} {line.text}"
  (← IO.getStdout).flush

/-- Answers what the program asks for. -/
def answer (m : Machine) : (r : CommandLine.Request) → IO r.Reply
  | .lookup name => IO.getEnv name
  | .read path => attempt (IO.FS.readBinFile path)
  | .note line => note line
  | .complain doing causes => (CommandLine.complaint doing causes).forM fun l => IO.eprintln l
  | .explain => CommandLine.usage.forM fun l => IO.println l
  | .mount choice => m.storage.set choice
  | .storage r => answerStorage m r
  | .serve e table => serve m e table

end PriceOracle.Main

/-- Does what the arguments say; ends with the exit code of the program. -/
def main (args : List String) : IO UInt32 := do
  let m : PriceOracle.Main.Machine := ⟨← IO.mkRef .memory, ← IO.mkRef [], ← IO.mkRef .empty⟩
  (PriceOracle.CommandLine.run args).runIn (PriceOracle.Main.answer m)
