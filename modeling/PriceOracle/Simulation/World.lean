import PriceOracle.EventBus
import PriceOracle.Simulation.Backend
import PriceOracle.Simulation.PriceFeed
import PriceOracle.Surroundings

/-!
# A simulated world

Surroundings of the service in which time passes only when every task waits. Sources answer from a
script, feeds are simulated, and every request to the outside is written down.
-/

namespace PriceOracle.Simulation

/-- A scripted answer of a source, and how long it takes. -/
structure Scripted (α : Type) where
  delay : Duration
  outcome : Except SourceError α

/-- A request to the outside, and the stage of the one oracle that it concerns. -/
structure Call where
  request : Source.Request ⊕ Feed.Request
  stage : Option Stage

/-- The surroundings of a service. -/
structure World where
  /-- The time that has passed. -/
  clock : Duration
  /-- The second of the day that every look at the clock shows. -/
  today : UInt64
  table : Table
  backend : Backend
  locks : LockTable
  stages : Dict OracleId Stage
  bus : EventBus
  pages : Dict String (Scripted Source.HttpAnswer)
  contracts : Dict FeedKey (Scripted (List UInt8))
  feeds : Dict FeedKey PriceFeed
  /-- The requests to the outside, the latest first. -/
  calls : List Call

namespace World

/-- A world at its beginning, on some storage. -/
def ofBackend (today : UInt64) (backend : Backend) : World :=
  ⟨⟨0⟩, today, .empty, backend, .empty, [], .ofCapacity 1, [], [], [], []⟩

/-- The stage of an oracle; idle before its first cycle. -/
def stage (w : World) (id : OracleId) : Stage := (w.stages.get? id).getD .idle

/-- The stage of the one oracle that a request concerns. -/
def stageOf (w : World) (concerns : OracleConfig → Bool) : Option Stage :=
  match w.table.inOrder.filter fun r => concerns r.config with
  | [r] => some (w.stage r.config.id)
  | _ => none

/-- Whether an oracle reads a source by a request. -/
def reads (r : Source.Request) (c : OracleConfig) : Bool :=
  match r, c.source with
  | .get url _, .http url' _ => url = url'
  | .call endpoint target _ _, .contract endpoint' target' _ =>
    target = target' && endpoint.chainId = endpoint'.chainId
  | _, _ => false

/-- Writes a request to the outside down. -/
def log (w : World) (request : Source.Request ⊕ Feed.Request) (concerns : OracleConfig → Bool) :
    World :=
  { w with calls := ⟨request, w.stageOf concerns⟩ :: w.calls }

/-- A page that no script mentions. -/
def missingPage : Scripted Source.HttpAnswer := ⟨⟨0⟩, .ok ⟨404, ByteArray.empty⟩⟩

/-- A contract that no script mentions. -/
def missingContract : Scripted (List UInt8) := ⟨⟨0⟩, .ok []⟩

/-- The outcome of a scripted answer under a time limit, and when it comes. -/
def within (w : World) (limit : Duration) (s : Scripted α) :
    Option (Except SourceError α) × Duration :=
  if s.delay.nanos ≤ limit.nanos then (some s.outcome, ⟨w.clock.nanos + s.delay.nanos⟩)
  else (none, ⟨w.clock.nanos + limit.nanos⟩)

/-- Answers a request to a source, and tells when the answer comes. -/
def answerSource : (r : Source.Request) → World → r.Reply × Duration
  | .get url limit, w => w.within limit ((w.pages.get? url).getD missingPage)
  | .call endpoint target _ limit, w =>
    w.within limit ((w.contracts.get? ⟨endpoint.chainId, target⟩).getD missingContract)

/-- The feed of a key. -/
def feed (w : World) (key : FeedKey) : PriceFeed := (w.feeds.get? key).getD .empty

/-- Changes a feed. -/
def setFeed (w : World) (key : FeedKey) (f : PriceFeed) : World :=
  { w with feeds := w.feeds.set key f }

/-- Answers a request to a feed. -/
def answerFeed (r : Feed.Request) (w : World) : r.Reply × World :=
  let key := r.destination.key
  let (reply, f) := (w.feed key).answer r
  (reply, (w.log (.inr r) fun c => c.destination.key = key).setFeed key f)

/-- Answers a request to the registry. -/
def answerRegistry (r : Registry.Request) (w : World) : r.Reply × World :=
  let ((reply, table), backend) := w.backend.run (Registry.answer r w.table)
  (reply, { w with table, backend })

/-- What a request comes to: a reply and the time at which it comes, or nothing while a lock is
held. -/
abbrev Answer (r : Surroundings.Request) := Option (r.Reply × Duration × World)

/-- A reply at once. -/
def atOnce {r : Surroundings.Request} (reply : r.Reply) (w : World) : Answer r :=
  some (reply, w.clock, w)

/-- Answers a request. -/
def answer : (r : Surroundings.Request) → World → Answer r
  | .registry r, w => atOnce (r := .registry r) (answerRegistry r w).1 (answerRegistry r w).2
  | .source r, w => some ((answerSource r w).1, (answerSource r w).2, w.log (.inl r) (reads r))
  | .feed r, w => atOnce (r := .feed r) (answerFeed r w).1 (answerFeed r w).2
  | .unixTime, w => atOnce (r := .unixTime) w.today w
  | .elapsed, w => atOnce (r := .elapsed) w.clock w
  | .delay shortest longest, w =>
    atOnce (r := .delay shortest longest) ⟨(shortest.nanos + longest.nanos) / 2⟩ w
  | .sleep d, w => some ((), ⟨w.clock.nanos + d.nanos⟩, w)
  | .emit e, w => atOnce (r := .emit e) () { w with bus := (w.bus.publish e).2 }
  | .stage id, w => atOnce (r := .stage id) (w.stage id) w
  | .enter id s, w => atOnce (r := .enter id s) () { w with stages := w.stages.set id s }
  | .leave id, w => atOnce (r := .leave id) () { w with stages := w.stages.unset id }
  | .slot id, w =>
    atOnce (r := .slot id) (w.locks.slot id).1 { w with locks := (w.locks.slot id).2 }
  | .tryTake s, w =>
    atOnce (r := .tryTake s) (w.locks.tryTake s).1 { w with locks := (w.locks.tryTake s).2 }
  | .take s, w =>
    if (w.locks.tryTake s).1 then atOnce (r := .take s) () { w with locks := (w.locks.tryTake s).2 }
    else none
  | .release s, w => atOnce (r := .release s) () { w with locks := w.locks.release s }
  | .forget id, w => atOnce (r := .forget id) () { w with locks := w.locks.forget id }

/-- Takes all events of the first reader, after the number of those it missed. -/
def receiveAll : (fuel : Nat) → EventBus → List EventBus.Receipt × EventBus
  | 0, b => ([], b)
  | fuel + 1, b =>
    match b.receive 0 with
    | (.nothing, b) | (.closed, b) => ([], b)
    | (r, b) =>
      let (more, b) := receiveAll fuel b
      (r :: more, b)

/-- Takes the events that were sent since the last time. -/
def drainEvents (w : World) : List EventBus.Receipt × World :=
  let (receipts, bus) := receiveAll (w.bus.kept.length + 2) w.bus
  (receipts, { w with bus })

end World

end PriceOracle.Simulation
