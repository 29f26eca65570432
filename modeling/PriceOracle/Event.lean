import PriceOracle.Oracle

/-!
# Events

What the service reports about an oracle while it runs.
-/

namespace PriceOracle

/-- Something that happened to an oracle. -/
inductive Event where
  | registered (id : OracleId)
  | updated (id : OracleId)
  | removed (id : OracleId)
  | fetchFailed (id : OracleId) (reason : String) (failures : UInt32)
  | valueRejected (id : OracleId) (value : Decimal) (reason : String)
  | publishSubmitted (id : OracleId) (round : RoundId) (txHash : TxHash)
  | roundPublished (id : OracleId) (record : RoundRecord)
  | publishFailed (id : OracleId) (round : RoundId) (reason : String) (retryable : Bool)
  | halted (id : OracleId) (reason : String)
  | resynced (id : OracleId) (round : RoundId)
  deriving DecidableEq

/-- The oracle that an event is about. -/
def Event.oracleId : Event → OracleId
  | registered id | updated id | removed id | fetchFailed id .. | valueRejected id ..
  | publishSubmitted id .. | roundPublished id .. | publishFailed id .. | halted id ..
  | resynced id .. => id

end PriceOracle
