import PriceOracle.Decimal.FixedPoint

/-!
# Rounds and transactions

A feed numbers its publications in rounds, starting at one. `FeedRound` is a round as the feed
stores it, `RoundRecord` a confirmed round as a decimal value.
-/

namespace PriceOracle

/-- The number after another; there is none after the last one of 64 bits. -/
def successor? (n : UInt64) : Option UInt64 :=
  if n.toNat + 1 < 2 ^ 64 then some (n + 1) else none

/-- The number of a round on a feed; zero before the first. -/
abbrev RoundId := UInt64

/-- The hash of a transaction. -/
structure TxHash where
  bytes : List UInt8
  deriving DecidableEq

/-- The full form of a hash. -/
def TxHash.text (h : TxHash) : String := Hex.marked h.bytes

/-- The first four bytes of a hash, for log lines. -/
def TxHash.short (h : TxHash) : String :=
  let digits := Hex.encode h.bytes
  if digits.length ≤ 8 then String.ofList digits else String.ofList (digits.take 8) ++ ".."

/-- A round as a feed stores it. -/
structure FeedRound where
  round : RoundId
  answer : Uint256
  startedAt : UInt64
  updatedAt : UInt64
  answeredIn : RoundId
  deriving DecidableEq

/-- What a feed reports that was never published to. -/
def FeedRound.empty : FeedRound := ⟨0, Uint256.zero, 0, 0, 0⟩

/-- A confirmed publication: its round, its value, and the second it was confirmed in. -/
structure RoundRecord where
  round : RoundId
  answer : Decimal
  timestamp : UInt64
  deriving DecidableEq

/-- A mined transaction. -/
structure Receipt where
  hash : TxHash
  block : UInt64
  success : Bool
  deriving DecidableEq

end PriceOracle
