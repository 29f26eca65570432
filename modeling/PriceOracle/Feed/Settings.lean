import PriceOracle.Duration
import PriceOracle.Feed.Error
import PriceOracle.Schema

/-!
# Settings of feeds

How deep a transaction has to lie before its round counts, how often its receipt is asked for, and
how long.
-/

namespace PriceOracle.Feed

/-- The settings of feeds. -/
def schema : Schema :=
  ⟨[], [Schema.field "confirmations" (.integer (some 1) (some 64)),
    Schema.field "poll_interval_ms" (.integer (some 10) none),
    Schema.field "confirmation_timeout_secs" (.integer (some 1) (some 3600))]⟩

/-- Checks the settings of feeds. -/
def check (s : Setting) : Except PublishError Unit :=
  match schema.validate s with
  | .ok () => .ok ()
  | .error e => .error (.invalidDestination e.message)

/-- The number of a setting as a word of 64 bits, where it is one; a negative number wraps. -/
def wordOf (s : Setting) (name : String) (default : UInt64) : UInt64 :=
  ((s.get? name).bind Setting.asInteger?).elim default UInt64.ofInt

/-- The number of blocks that a transaction has to lie under, itself included. -/
def depthOf (s : Setting) : UInt64 := wordOf s "confirmations" 1

/-- The pause between two looks for a receipt. -/
def pollIntervalOf (s : Setting) : Duration := .ofMillis (wordOf s "poll_interval_ms" 2000).toNat

/-- The time after which nobody waits for a receipt any more. -/
def patienceOf (s : Setting) : Duration :=
  .ofSeconds (wordOf s "confirmation_timeout_secs" 120).toNat

end PriceOracle.Feed
