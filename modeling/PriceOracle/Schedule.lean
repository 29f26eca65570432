import PriceOracle.Oracle

/-!
# Schedules

An oracle publishes once as many cycles have passed since its last publication as its threshold
says. The decision depends on the threshold and the bookkeeping alone.
-/

namespace PriceOracle

/-- Whether an oracle publishes now. -/
inductive Schedule where
  | due
  /-- As many more cycles are needed. -/
  | notDue (remaining : UInt64)
  | halted
  deriving DecidableEq

namespace Schedule

/-- Whether enough cycles have passed. A threshold of zero is never reached. -/
def isDue (threshold cycles : UInt64) : Bool := 0 < threshold && threshold ≤ cycles

/-- The cycles that are still needed, zero when there are more than enough. -/
def remaining (threshold cycles : UInt64) : UInt64 :=
  if cycles < threshold then threshold - cycles else 0

/-- Decides for an oracle with some bookkeeping. -/
def decide (threshold : UInt64) (b : Bookkeeping) : Schedule :=
  if b.isHalted then .halted
  else if isDue threshold b.cycles then .due
  else .notDue (remaining threshold b.cycles)

end Schedule

end PriceOracle
