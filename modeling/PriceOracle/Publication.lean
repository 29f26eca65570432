import PriceOracle.Feed

/-!
# Publications

A publication has two halves, so that the hash of its transaction can be written down in between:
`submitRound` checks that the feed is at the round before and sends the answer; `confirmRound`
waits for the transaction and reads the round back.

A submission whose outcome was not observed is settled later by `resolve`, from what the chain
says about its transaction.
-/

namespace PriceOracle

/-- A round update that was sent. -/
structure Submission where
  txHash : TxHash
  /-- The round that the feed should write. -/
  round : RoundId
  /-- The value as it was fetched. -/
  value : Decimal
  /-- The value as it was sent. -/
  answer : Uint256

/-- What is remembered of a submission. -/
def Submission.pending (s : Submission) : Pending := ⟨s.txHash, s.round, s.value⟩

namespace Publication

/-- A failed conversion as a failed publication. -/
def outOfRange : Except NumericError α → Except PublishError α
  | .ok a => .ok a
  | .error e => .error (.valueOutOfRange e.message)

/-- The answer that a value is written as. -/
def encode (d : Destination) (value : Decimal) : Except PublishError Uint256 :=
  outOfRange (value.toFixedPoint d.decimals)

/-- The record of a round as a feed stores it. -/
def toRecord (d : Destination) (r : FeedRound) : Except PublishError RoundRecord := do
  let answer ← outOfRange (Decimal.ofFixedPoint r.answer d.decimals)
  return ⟨r.round, answer, r.updatedAt⟩

/-- Checks that a round comes right after the one that its feed is at. -/
def checkNext (current round : RoundId) : Except PublishError Unit :=
  match successor? current with
  | none => .error .overflow
  | some next => if next = round then .ok () else .error (.roundConflict round current)

/-- Checks that the feed is at the round before, and sends the answer. -/
def submitRound (d : Destination) (value : Decimal) (round : RoundId) : Feed.Use Submission := do
  let answer ← Attempt.ofExcept (encode d value)
  let current ← Feed.latestRound d
  Attempt.ofExcept (checkNext current.round round)
  let txHash ← Feed.submit d answer
  return ⟨txHash, round, value, answer⟩

/-- Reads the round of a mined submission back. -/
def readBack (d : Destination) (s : Submission) : Feed.Use RoundRecord := do
  match ← Feed.roundData d s.round with
  | none => throw (.unconfirmed s.txHash.text s!"round {s.round} not readable yet")
  | some r =>
    if r.answer ≠ s.answer then
      let latest ← Feed.latestRound d
      throw (.roundConflict s.round latest.round)
    return ⟨s.round, s.value, r.updatedAt⟩

/-- Waits for a submission to be mined and reads its round back. -/
def confirmRound (depth : UInt64) (d : Destination) (s : Submission) : Feed.Use RoundRecord := do
  let receipt ← Feed.confirmation d s.txHash depth
  if !receipt.success then
    throw (.reverted
      s!"updatePrice transaction {s.txHash.text} reverted in block {receipt.block}")
  readBack d s

/-- Both halves in one. -/
def publish (depth : UInt64) (d : Destination) (value : Decimal) (round : RoundId) :
    Feed.Use RoundRecord := do
  let s ← submitRound d value round
  confirmRound depth d s

/-- Settles a submission that has no receipt: either the feed went on without it, or the node
still has it, or it is gone. -/
def resolveUnmined (d : Destination) (p : Pending) : Feed.Use (Option RoundRecord) := do
  let current ← Feed.latestRound d
  if p.round ≤ current.round then throw (.roundConflict p.round current.round)
  if ← Feed.isKnown d p.txHash then throw (.unconfirmed p.txHash.text "still pending")
  return none

/-- Settles a submission whose outcome was not observed: the confirmed round, or none when
nothing was written. -/
def resolve (d : Destination) (p : Pending) : Feed.Use (Option RoundRecord) := do
  let answer ← Attempt.ofExcept (encode d p.answer)
  match ← Feed.receipt d p.txHash with
  | some receipt =>
    if receipt.success then return some (← readBack d ⟨p.txHash, p.round, p.answer, answer⟩)
    else return none
  | none => resolveUnmined d p

/-- The latest round as a record; none on an empty feed. -/
def latestRecord (d : Destination) : Feed.Use (Option RoundRecord) := do
  let r ← Feed.latestRound d
  if r.round = 0 then return none
  return some (← Attempt.ofExcept (toRecord d r))

end Publication

end PriceOracle
