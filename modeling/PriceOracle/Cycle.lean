import PriceOracle.Publication
import PriceOracle.Retry
import PriceOracle.Schedule
import PriceOracle.Surroundings

/-!
# Cycles

A cycle of an oracle reads its source, checks the value and publishes it, where enough cycles have
passed. It starts only when the lock of the oracle is free. Every change of the bookkeeping is
stored before the next request to the outside; a submission is written down as pending before its
receipt is waited for, and a later cycle settles it from what the chain says.
-/

namespace PriceOracle

/-- How a cycle ends. -/
inductive Outcome where
  /-- Another cycle or a management call holds the oracle. -/
  | busy
  | halted (reason : String)
  | waiting (remaining : UInt64)
  | fetchFailed (reason : String)
  | rejected (reason : String)
  | published (record : RoundRecord)
  | publishFailed (round : RoundId) (reason : String) (retryable : Bool)
  /-- The deadline passed before the next request to the outside. -/
  | deadlineExceeded
  /-- A number that is needed takes more than 64 bits, and the cycle breaks off where it is. Nobody
  is told. -/
  | overflowed
  deriving DecidableEq

namespace Cycle

open Surroundings

/-- What all cycles go by. -/
structure Policy where
  /-- The time limit of a read. -/
  limit : Duration
  /-- The number of blocks that a publication has to lie under. -/
  depth : UInt64
  validation : ValidationPolicy
  retry : RetryPolicy

/-- Whether a deadline has passed. -/
def isLate (deadline : Duration) : Action Bool := do
  let now ← elapsed
  return decide (deadline.nanos ≤ now.nanos)

/-! ## Ends of a cycle -/

/-- The bookkeeping after a confirmed round. -/
def afterRound (now : UInt64) (r : RoundRecord) (b : Bookkeeping) : Bookkeeping :=
  { b with
    lastAttempt := some now, lastRound := r.round, lastValue := some r.answer, cycles := 0,
    failures := 0, pending := none }

/-- The bookkeeping after a failure. -/
def afterFailure (now : UInt64) (b : Bookkeeping) : Bookkeeping :=
  { b with lastAttempt := some now, failures := b.failures + 1 }

/-- The bookkeeping after a failed publication, which may halt the oracle. -/
def afterPublishFailure (now : UInt64) (halt : Option String) (b : Bookkeeping) : Bookkeeping :=
  { afterFailure now b with halted := halt <|> b.halted }

/-- Writes a confirmed round down. -/
def record (id : OracleId) (r : RoundRecord) : Step Outcome := do
  enter id .recorded
  let now ← unixTime
  let _ ← revise id (afterRound now r)
  emit (.roundPublished id r)
  return .published r

/-- Writes a failure down, and tells it. -/
def fail (id : OracleId) (event : Bookkeeping → Event) (outcome : Outcome) : Step Outcome := do
  let now ← unixTime
  let b ← revise id (afterFailure now)
  emit (event b)
  return outcome

/-- Writes a failed read down. -/
def failFetch (id : OracleId) (reason : String) : Step Outcome :=
  fail id (fun b => .fetchFailed id reason b.failures) (.fetchFailed reason)

/-- Writes a value that may not be published down. -/
def reject (id : OracleId) (value : Decimal) (reason : String) : Step Outcome :=
  fail id (fun _ => .valueRejected id value reason) (.rejected reason)

/-- Writes a failed publication down; one that cannot be tried again halts the oracle. A cycle that
breaks off writes nothing down. -/
def failPublish (id : OracleId) (round : RoundId) (e : PublishError) : Step Outcome := do
  if e = .overflow then return .overflowed
  let reason := e.message
  let now ← unixTime
  let halt := if e.isRetryable then none else some reason
  let _ ← revise id (afterPublishFailure now halt)
  emit (.publishFailed id round reason e.isRetryable)
  if !e.isRetryable then emit (.halted id reason)
  return .publishFailed round reason e.isRetryable

/-! ## Publishing -/

/-- Forgets a submission that was settled without a round. -/
def dropPending (id : OracleId) : Step Unit := do
  let _ ← revise id fun b => { b with pending := none }

/-- Sends a value as a round, writes the submission down and waits for it. -/
def submit (policy : Policy) (c : OracleConfig) (value : Decimal) (round : RoundId) :
    Step (Except PublishError RoundRecord) := do
  match ← act <| feed (Publication.submitRound c.destination value round) with
  | .error e => return .error e
  | .ok s =>
    let _ ← revise c.id fun b => { b with pending := some s.pending }
    emit (.publishSubmitted c.id round s.txHash)
    feed (Publication.confirmRound policy.depth c.destination s)

/-- One attempt to publish. A submission that an earlier attempt left is settled first. -/
def publishOnce (policy : Policy) (c : OracleConfig) (value : Decimal) (round : RoundId) :
    Step (Except PublishError RoundRecord) := do
  match (← row c.id).bookkeeping.pending with
  | none => submit policy c value round
  | some p =>
    match ← act <| feed (Publication.resolve c.destination p) with
    | .error e => return .error e
    | .ok (some r) => return .ok r
    | .ok none =>
      dropPending c.id
      submit policy c value round

/-- Publishes with a number of further attempts after retryable failures, each after a delay that
still ends before the deadline. -/
def publishWithRetry (policy : Policy) (c : OracleConfig) (value : Decimal) (round : RoundId)
    (deadline : Duration) : (retries : Nat) → (interval : Duration) →
    Step (Except PublishError RoundRecord)
  | 0, _ => publishOnce policy c value round
  | retries + 1, interval => do
    match ← publishOnce policy c value round with
    | .ok r => return .ok r
    | .error e =>
      if !e.isRetryable then return .error e
      let delay ← delay (RetryPolicy.shortest interval) (RetryPolicy.longest interval)
      let now ← elapsed
      if deadline.nanos ≤ now.nanos + delay.nanos then return .error e
      sleep delay
      publishWithRetry policy c value round deadline retries (policy.retry.next interval)

/-- Publishes a value as a round. -/
def publishAs (policy : Policy) (id : OracleId) (c : OracleConfig) (value : Decimal)
    (round : RoundId) (deadline : Duration) : Step Outcome := do
  match ← publishWithRetry policy c value round deadline policy.retry.maxRetries.toNat
      policy.retry.initialInterval with
  | .ok r => record id r
  | .error e => failPublish id round e

/-- Publishes a value as the next round, if there is one. -/
def publish (policy : Policy) (id : OracleId) (c : OracleConfig) (b : Bookkeeping)
    (value : Decimal) (deadline : Duration) : Step Outcome := do
  enter id .publishing
  match b.nextRound with
  | none => return .overflowed
  | some round => publishAs policy id c value round deadline

/-! ## The cycle -/

/-- Reads the source, checks the value and publishes it. -/
def fetch (policy : Policy) (id : OracleId) (c : OracleConfig) (b : Bookkeeping)
    (deadline : Duration) : Step Outcome := do
  if ← isLate deadline then return .deadlineExceeded
  enter id .fetching
  match ← act <| source (Source.read policy.limit c.source) with
  | .error e => failFetch id e.message
  | .ok value =>
    enter id .validating
    match policy.validation.fault? value with
    | some reason => reject id value reason
    | none =>
      if ← isLate deadline then return .deadlineExceeded
      publish policy id c b value deadline

/-- Counts the cycle, and goes on where the oracle is due. -/
def observe (policy : Policy) (id : OracleId) (c : OracleConfig) (deadline : Duration) :
    Step Outcome := do
  let b ← revise id fun b => { b with cycles := b.cycles + 1 }
  match Schedule.decide c.threshold b with
  | .due => fetch policy id c b deadline
  | .notDue remaining => return .waiting remaining
  | .halted => return .halted (b.halted.getD "")

/-- The cycle of an oracle whose lock is held. -/
def runLocked (policy : Policy) (id : OracleId) (deadline : Duration) : Step Outcome := do
  let r ← row id
  match r.bookkeeping.halted, r.bookkeeping.pending with
  | some reason, _ => return .halted reason
  | none, none => observe policy id r.config deadline
  | none, some p =>
    if ← isLate deadline then return .deadlineExceeded
    enter id .publishing
    match ← act <| feed (Publication.resolve r.config.destination p) with
    | .error e => failPublish id p.round e
    | .ok (some settled) => record id settled
    | .ok none =>
      dropPending id
      observe policy id r.config deadline

/-- Puts the stage of an oracle back after a cycle; one that broke off leaves it where it was. -/
def leaveStage (id : OracleId) : Except RegistryError Outcome → Action Unit
  | .ok .overflowed => return
  | _ => enter id .idle

/-- One cycle of an oracle, unless its lock is held. -/
def run (policy : Policy) (id : OracleId) (deadline : Duration) :
    Action (Except RegistryError Outcome) := do
  let slot ← slot id
  if ← tryTake slot then
    let outcome ← (runLocked policy id deadline).run
    leaveStage id outcome
    release slot
    return outcome
  else return .ok .busy

end Cycle

end PriceOracle
