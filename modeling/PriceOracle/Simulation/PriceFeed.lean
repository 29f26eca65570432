import PriceOracle.Feed

/-!
# A simulated price feed

A feed with its rounds, the receipts of mined transactions and those not mined yet. A transaction
is mined as soon as it is sent, unless the feed holds transactions back. Failures can be queued
for each kind of request, and the next transaction can be made to revert or to carry another
answer.
-/

namespace PriceOracle.Simulation

/-- The name of a kind of request to a feed. -/
def methodName : Feed.Request → String
  | .latestRound _ => "latest_round"
  | .roundData _ _ => "round_data"
  | .submit _ _ => "submit_update"
  | .receipt _ _ => "get_receipt"
  | .isKnown _ _ => "transaction_known"
  | .confirmation _ _ _ => "wait_for_confirmation"

/-- The state of a feed and of its transactions. -/
structure PriceFeed where
  rounds : List FeedRound
  receipts : List Receipt
  /-- Transactions that are not mined yet, in the order of submission. -/
  waiting : List (TxHash × Uint256)
  /-- The number of transactions ever sent. -/
  submitted : Nat
  /-- Whether new transactions wait to be mined. -/
  holding : Bool
  revertNext : Bool
  alterNext : Option Uint256
  /-- Failures by the name of the request that they wait for. -/
  failures : List (String × PublishError)

namespace PriceFeed

/-- A feed that was never published to. -/
def empty : PriceFeed := ⟨[], [], [], 0, false, false, none, []⟩

/-- The latest round, or the empty one. -/
def latest (f : PriceFeed) : FeedRound := f.rounds.getLast?.getD .empty

/-- The second in which round zero would have been written. -/
def epoch : UInt64 := 1700000000

/-- The block below the one of the first round. -/
def firstBlock : UInt64 := 100

/-- Writes an answer as the next round. -/
def append (answer : Uint256) (f : PriceFeed) : PriceFeed :=
  let round := f.latest.round + 1
  { f with rounds := f.rounds ++ [⟨round, answer, epoch + round, epoch + round, round⟩] }

/-- Mines a transaction. -/
def mine (succeeds : Bool) (hash : TxHash) (answer : Uint256) (f : PriceFeed) : PriceFeed :=
  let f := if succeeds then f.append answer else f
  { f with receipts := f.receipts ++ [⟨hash, firstBlock + f.latest.round, succeeds⟩] }

/-- Mines all waiting transactions. -/
def mineAll (succeeds : Bool) (f : PriceFeed) : PriceFeed :=
  f.waiting.foldl (fun f tx => f.mine succeeds tx.1 tx.2) { f with waiting := [] }

/-- Loses all waiting transactions. -/
def dropAll (f : PriceFeed) : PriceFeed := { f with waiting := [] }

/-- Queues a failure a number of times. -/
def fail (method : String) (e : PublishError) (times : Nat) (f : PriceFeed) : PriceFeed :=
  { f with failures := f.failures ++ List.replicate times (method, e) }

/-- The hash of the transaction with a number. -/
def hashOf (n : Nat) : TxHash := ⟨List.replicate 32 (UInt8.ofNat n)⟩

/-- Takes a transaction with an answer. -/
def send (answer : Uint256) (f : PriceFeed) : TxHash × PriceFeed :=
  let hash := hashOf (f.submitted + 1)
  let answer := f.alterNext.getD answer
  let sent := { f with submitted := f.submitted + 1, alterNext := none, revertNext := false }
  if f.holding then (hash, { sent with waiting := sent.waiting ++ [(hash, answer)] })
  else (hash, sent.mine (!f.revertNext) hash answer)

/-- The receipt of a transaction. -/
def receipt? (f : PriceFeed) (hash : TxHash) : Option Receipt :=
  f.receipts.find? fun r => r.hash = hash

/-- Whether a transaction waits or is mined. -/
def knows (f : PriceFeed) (hash : TxHash) : Bool :=
  f.waiting.any (·.1 = hash) || (f.receipt? hash).isSome

/-- Takes the first failure queued for a request out. -/
def takeFailure (method : String) : List (String × PublishError) →
    Option (PublishError × List (String × PublishError))
  | [] => none
  | (name, e) :: rest =>
    if name = method then some (e, rest)
    else (takeFailure method rest).map fun (found, rest) => (found, (name, e) :: rest)

/-- A request that fails. -/
def refuse (e : PublishError) : (r : Feed.Request) → r.Reply
  | .latestRound _ => .error e
  | .roundData _ _ => .error e
  | .submit _ _ => .error e
  | .receipt _ _ => .error e
  | .isKnown _ _ => .error e
  | .confirmation _ _ _ => .error e

/-- Answers a request that does not fail. -/
def serve : (r : Feed.Request) → PriceFeed → r.Reply × PriceFeed
  | .latestRound _, f => (.ok f.latest, f)
  | .roundData _ round, f => (.ok (f.rounds.find? (·.round = round)), f)
  | .submit _ answer, f =>
    let (hash, f) := f.send answer
    (.ok hash, f)
  | .receipt _ hash, f => (.ok (f.receipt? hash), f)
  | .isKnown _ hash, f => (.ok (f.knows hash), f)
  | .confirmation _ hash _, f =>
    (match f.receipt? hash with
      | some r => .ok r
      | none => .error (.unconfirmed hash.text "no receipt before timeout"), f)

/-- Answers a request: with a failure that waits for it, or else from the state of the feed. -/
def answer (r : Feed.Request) (f : PriceFeed) : r.Reply × PriceFeed :=
  match takeFailure (methodName r) f.failures with
  | some (e, rest) => (refuse e r, { f with failures := rest })
  | none => serve r f

end PriceFeed

end PriceOracle.Simulation
