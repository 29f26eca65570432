import PriceOracle.Abi
import PriceOracle.Account
import PriceOracle.Dict
import PriceOracle.Feed
import PriceOracle.Node

/-!
# Price feeds through nodes

Feeds are contracts that nodes call and that signed transactions update. An endpoint is remembered
together with the key that signs on it: the one of its credentials, or that of the service.

`confirmation` asks for the receipt of a transaction again and again until it lies deep enough.
-/

namespace PriceOracle.Node.PriceFeed

open Secp256k1 (PrivateKey)

/-- What publishing goes by. -/
structure Options where
  /-- Signs where an endpoint names no credentials. -/
  account : Option PrivateKey
  /-- The pause between two looks for a receipt. -/
  pause : Duration
  /-- The time after which nobody looks for a receipt any more. -/
  patience : Duration

/-- The endpoints that were found to serve their chains, with the key that signs on each. -/
abbrev Known := Dict Endpoint (Option PrivateKey)

/-- A use of feeds that remembers the endpoints it checked. -/
abbrev Use (α : Type) := Checked Known PublishError α

/-- The key that signs on an endpoint. -/
def signer (options : Options) (e : Endpoint) : Use (Option PrivateKey) :=
  match e.credentialPath with
  | none => pure options.account
  | some path => do
    let content ← ask (.read path)
    match Account.ofFile (fun _ => content) path with
    | .ok key => return some key
    | .error e => throw (.unauthorized e.message)

/-- Makes sure that an endpoint serves its chain; gives the key that signs on it. -/
def connect (options : Options) (e : Endpoint) : Use (Option PrivateKey) := do
  if let some key := (← get).get? e then return key
  if !Url.isWellFormed e.url then throw (.invalidDestination (badUrl e.url))
  let key ← signer options e
  checkChain e PublishError.classify .invalidDestination
  modify fun known => Dict.set e key known
  return key

/-- A failed request, sorted by what the node said. -/
def sorted (action : String) (reason : String) : PublishError :=
  .classify s!"{action}: {reason}"

/-- A round number in 64 bits. -/
def narrow (what : String) (n : Nat) : Use RoundId :=
  if n < 2 ^ 64 then pure (UInt64.ofNat n)
  else throw (.invalidDestination s!"{what} {n} exceeds u64")

/-- The round that a feed reports. -/
def roundOf (r : Abi.RoundWords) : Use FeedRound := do
  let round ← narrow "round id" r.round
  let answeredIn ← narrow "answered-in round" r.answeredIn
  return ⟨round, r.answer, Abi.seconds r.startedAt, Abi.seconds r.updatedAt, answeredIn⟩

/-- The words of a round, or why there are none. -/
def outputOf (output : Except String (List UInt8)) : Except String Abi.RoundWords := do
  match Abi.round? (← output) with
  | some r => .ok r
  | none => .error "the output is not a round"

/-- The latest round. -/
def latestRound (options : Options) (d : Destination) : Use FeedRound := do
  let _ ← connect options d.endpoint
  let output ← ask (.call d.endpoint.url d.contract Abi.latestRoundCall)
  roundOf (← expect (sorted "latestRoundData failed") (outputOf output))

/-- A round by its number. Feeds revert on rounds that they never stored. -/
def roundData (options : Options) (d : Destination) (round : RoundId) :
    Use (Option FeedRound) := do
  let _ ← connect options d.endpoint
  match outputOf (← ask (.call d.endpoint.url d.contract (Abi.roundCall round))) with
  | .ok r => if r.updatedAt = 0 then return none else return some (← roundOf r)
  | .error reason =>
    match PublishError.classify reason with
    | .reverted _ => return none
    | e => throw e

/-- Sends an answer. -/
def submit (options : Options) (d : Destination) (answer : Uint256) : Use TxHash := do
  if d.endpoint.credentialPath.isNone && options.account.isNone then
    throw (.unauthorized "no signing identity configured for destination")
  let key ← connect options d.endpoint
  expect (sorted "Failed to send updatePrice")
    (← ask (.send d.endpoint.url d.endpoint.chainId key d.contract (Abi.updateCall answer)))

/-- A node knows transactions by hashes of 32 bytes. -/
def checkHash (hash : TxHash) : Use Unit :=
  if hash.bytes.length = 32 then pure ()
  else throw (.network s!"transaction hash {hash.text} is not 32 bytes")

/-- The receipt of a transaction; one without a block counts as in the first. -/
def receipt (options : Options) (d : Destination) (hash : TxHash) : Use (Option Receipt) := do
  let _ ← connect options d.endpoint
  checkHash hash
  let found ← expect (sorted "Failed to get receipt") (← ask (.receipt d.endpoint.url hash))
  return found.map fun r => ⟨r.hash, r.block.getD 0, r.success⟩

/-- Whether the node knows a transaction. -/
def isKnown (options : Options) (d : Destination) (hash : TxHash) : Use Bool := do
  let _ ← connect options d.endpoint
  checkHash hash
  expect (sorted "Failed to get transaction") (← ask (.transaction d.endpoint.url hash))

/-- The number of blocks from the one of a receipt up to the latest, both included; none where it
takes more than 64 bits. -/
def depth (latest block : UInt64) : Option UInt64 :=
  successor? (if latest < block then 0 else latest - block)

/-- The failure of a wait that took too long. -/
def unconfirmed (options : Options) (hash : TxHash) (confirmations : UInt64) : PublishError :=
  .unconfirmed hash.text
    s!"no {confirmations} confirmations after {options.patience.nanos / 1000000000}s"

/-- What is made of a receipt in view of the latest block: it is given if it lies deep enough. -/
def judge (confirmations latest : UInt64) (r : Receipt) : Use (Option Receipt) :=
  match depth latest r.block with
  | none => throw .overflow
  | some depth => return if confirmations ≤ depth then some r else none

/-- One look for a receipt that lies deep enough. -/
def look (options : Options) (d : Destination) (hash : TxHash) (confirmations : UInt64) :
    Use (Option Receipt) := do
  match ← receipt options d hash with
  | none => return none
  | some r =>
    let latest ← expect (sorted "Failed to get block number")
      (← ask (.blockNumber d.endpoint.url))
    judge confirmations latest r

/-- Looks for a receipt until it lies deep enough, until time is up, or as many times as given. -/
def poll (options : Options) (d : Destination) (hash : TxHash) (confirmations : UInt64)
    (start : Duration) : (looks : Nat) → Use Receipt
  | 0 => throw (unconfirmed options hash confirmations)
  | looks + 1 => do
    let now ← ask .elapsed
    if start.nanos + options.patience.nanos < now.nanos then
      throw (unconfirmed options hash confirmations)
    match ← look options d hash confirmations with
    | some r => return r
    | none =>
      ask (.sleep options.pause)
      poll options d hash confirmations start looks

/-- The number of looks after which time is up, as each is followed by a pause. -/
def looks (options : Options) : Nat := options.patience.nanos / max options.pause.nanos 1 + 2

/-- Waits for a transaction to lie deep enough. -/
def confirmation (options : Options) (d : Destination) (hash : TxHash) (confirmations : UInt64) :
    Use Receipt := do
  let _ ← connect options d.endpoint
  poll options d hash confirmations (← ask .elapsed) (looks options)

/-- Answers a request to a feed. -/
def answer (options : Options) : (r : Feed.Request) → Known →
    Program Node.interface (r.Reply × Known)
  | .latestRound d, known => run (latestRound options d) known
  | .roundData d round, known => run (roundData options d round) known
  | .submit d value, known => run (submit options d value) known
  | .receipt d hash, known => run (receipt options d hash) known
  | .isKnown d hash, known => run (isKnown options d hash) known
  | .confirmation d hash confirmations, known =>
    run (confirmation options d hash confirmations) known

end PriceOracle.Node.PriceFeed
