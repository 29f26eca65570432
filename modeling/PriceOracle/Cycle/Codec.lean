import PriceOracle.Cycle
import PriceOracle.Oracle.Codec

/-!
# The JSON form of outcomes and submissions
-/

namespace PriceOracle

def Outcome.toJson : Outcome → Json
  | .busy => .str "Busy"
  | .halted reason => .obj [("Halted", .str reason)]
  | .waiting remaining => .obj [("Waiting", .nat remaining.toNat)]
  | .fetchFailed reason => .obj [("FetchFailed", .str reason)]
  | .rejected reason => .obj [("Rejected", .str reason)]
  | .published record => .obj [("Published", record.toJson)]
  | .publishFailed round reason retryable =>
    .obj [("PublishFailed", .obj [("round_hint", .nat round.toNat), ("reason", .str reason),
      ("retryable", .bool retryable)])]
  | .deadlineExceeded => .str "DeadlineExceeded"
  | .overflowed => .str "Overflowed"

def Submission.toJson (s : Submission) : Json :=
  .obj [("tx_hash", .str s.txHash.text), ("short", .str s.txHash.short),
    ("round_hint", .nat s.round.toNat), ("value", s.value.toJson), ("answer", .str s.answer.text)]

end PriceOracle
