import PriceOracle.Config
import PriceOracle.Duration

/-!
# Retries

The delay before each retry lies between half and one and a half times an interval that grows by
half each time, up to the longest one.
-/

namespace PriceOracle

/-- How often a publication is tried again within a tick, and how long to wait. -/
structure RetryPolicy where
  maxRetries : UInt32
  initialInterval : Duration
  maxInterval : Duration

namespace RetryPolicy

/-- The policy of a configuration. -/
def ofConfig (p : PublisherConfig) : RetryPolicy :=
  ⟨p.maxRetries, .ofMillis p.initialBackoff.toNat, .ofMillis p.maxBackoff.toNat⟩

/-- The shortest delay around an interval. -/
def shortest (interval : Duration) : Duration := ⟨interval.nanos / 2⟩

/-- The longest delay around an interval. -/
def longest (interval : Duration) : Duration := ⟨interval.nanos + interval.nanos / 2⟩

/-- The interval after another. -/
def next (p : RetryPolicy) (interval : Duration) : Duration :=
  if 2 * p.maxInterval.nanos ≤ 3 * interval.nanos then p.maxInterval
  else ⟨interval.nanos * 3 / 2⟩

end RetryPolicy

end PriceOracle
