import PriceOracle.Duration
import PriceOracle.Schema
import PriceOracle.Source.Error

/-!
# Settings of sources

How long a read may take, and how much of an answer is read. `check` refuses what is out of range;
the single values fall back to a default where a setting is not a number.
-/

namespace PriceOracle.Source

/-- The settings of sources. -/
def schema : Schema :=
  ⟨[], [Schema.field "timeout_ms" (.integer (some 1) (some 300000)),
    Schema.field "max_response_bytes" (.integer (some 1) (some 10000000))]⟩

/-- Checks the settings of sources. -/
def check (s : Setting) : Except SourceError Unit :=
  match schema.validate s with
  | .ok () => .ok ()
  | .error e => .error (.invalidSource e.message)

/-- The time limit of settings that name none. -/
def defaultLimit : Duration := .ofSeconds 10

/-- The time limit of some settings: a positive number of milliseconds. -/
def limitOf (s : Setting) : Duration :=
  match (s.get? "timeout_ms").bind Setting.asInteger? with
  | some ms => if 0 < ms then .ofMillis ms.toNat else defaultLimit
  | none => defaultLimit

/-- The longest body that is read where settings name none, in bytes. -/
def defaultMaxBody : Nat := 8000

/-- The longest body that is read, in bytes. -/
def maxBodyOf (s : Setting) : Nat :=
  ((s.get? "max_response_bytes").bind Setting.asInteger?).elim defaultMaxBody Int.toNat

end PriceOracle.Source
