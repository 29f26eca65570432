import PriceOracle.Address
import PriceOracle.Round

/-!
# Oracles

An oracle reads a value from a `Source` and publishes it to a `Destination`, the price feed
contract that it alone writes to. `Bookkeeping` is what the service remembers between cycles, and
a `Row` is one oracle of the registry with its bookkeeping.
-/

namespace PriceOracle

/-- The name of an oracle; any text. -/
abbrev OracleId := String

/-- A node of a chain: the chain it has to serve, its address, and the file of the key that signs
on it. -/
structure Endpoint where
  chainId : UInt64
  url : String
  credentialPath : Option String
  deriving DecidableEq

/-- Where a value comes from. -/
inductive Source where
  /-- A JSON document at a URL; the value stands at a path in it. -/
  | http (url path : String)
  /-- A contract method without arguments that returns an integer. -/
  | contract (endpoint : Endpoint) (target : Address) (method : String)
  deriving DecidableEq

/-- The label of a kind of source. -/
def Source.kind : Source → String
  | .http .. => "http"
  | .contract .. => "evm"

/-- The price feed that an oracle publishes to. -/
structure Destination where
  contract : Address
  endpoint : Endpoint
  /-- The decimals of the feed's integer answers. -/
  decimals : UInt32
  deriving DecidableEq

/-- The decimals of a feed that names none. -/
def Destination.defaultDecimals : UInt32 := 8

/-- The most decimals from which an answer can be read back as a decimal. -/
def Destination.maxDecimals : UInt32 := 28

/-- What tells feeds apart: two oracles never share a key. -/
structure FeedKey where
  chainId : UInt64
  contract : Address
  deriving DecidableEq

/-- The written form of a key. -/
def FeedKey.text (k : FeedKey) : String := s!"{k.contract.checksum}@{k.chainId}"

/-- The key of a destination: endpoint, credentials and decimals do not count. -/
def Destination.key (d : Destination) : FeedKey := ⟨d.endpoint.chainId, d.contract⟩

/-- An oracle as the operator registers it. -/
structure OracleConfig where
  id : OracleId
  source : Source
  /-- The number of cycles between two publications. -/
  threshold : UInt64
  destination : Destination
  deriving DecidableEq

/-- A submission whose outcome was not observed yet. -/
structure Pending where
  txHash : TxHash
  round : RoundId
  answer : Decimal
  deriving BEq

/-- What is remembered of an oracle between cycles. Comparison takes values by magnitude. -/
structure Bookkeeping where
  /-- The second of the last attempt. -/
  lastAttempt : Option UInt64
  /-- The last confirmed round, zero before the first. -/
  lastRound : RoundId
  lastValue : Option Decimal
  failures : UInt32
  cycles : UInt64
  /-- The reason of a halt; only a resync lifts it. -/
  halted : Option String
  pending : Option Pending
  deriving BEq

namespace Bookkeeping

/-- The bookkeeping of an oracle that never ran. -/
def initial : Bookkeeping := ⟨none, 0, none, 0, 0, none, none⟩

instance : Inhabited Bookkeeping := ⟨initial⟩

def isHalted (b : Bookkeeping) : Bool := b.halted.isSome

/-- The round that the next publication has to write; none after the last that there is. -/
def nextRound (b : Bookkeeping) : Option RoundId := successor? b.lastRound

end Bookkeeping

/-- One oracle of the registry. -/
structure Row where
  config : OracleConfig
  bookkeeping : Bookkeeping

end PriceOracle
