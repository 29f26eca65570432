import PriceOracle.Power
import PriceOracle.Text.Digits

/-!
# Durations

A `Duration` counts nanoseconds. `Duration.text` writes it in the largest of `s`, `ms`, `µs` and
`ns` in which it is at least one, with the fraction it needs.
-/

namespace PriceOracle

/-- A length of time, in nanoseconds. -/
structure Duration where
  nanos : Nat
  deriving DecidableEq, Inhabited

namespace Duration

def ofMillis (n : Nat) : Duration := ⟨n * 1000000⟩

def ofSeconds (n : Nat) : Duration := ⟨n * 1000000000⟩

/-- Whole milliseconds. -/
def millis (d : Duration) : Nat := d.nanos / 1000000

/-- A number of units of `10 ^ places` nanoseconds, without trailing zeros of the fraction. -/
def amount (nanos places : Nat) : List Char :=
  let fraction := Digits.padded places (nanos % 10 ^ places)
  let kept := (fraction.reverse.dropWhile (· = '0')).reverse
  Digits.ofNat (nanos / 10 ^ places) ++
    (if places = 0 || kept.isEmpty then [] else '.' :: kept)

/-- The written form: `1.5s`, `200ms`, `0ns`. -/
def text (d : Duration) : String :=
  let write (places : Nat) (unit : String) := String.ofList (amount d.nanos places) ++ unit
  if 10 ^ 9 ≤ d.nanos then write 9 "s"
  else if 10 ^ 6 ≤ d.nanos then write 6 "ms"
  else if 10 ^ 3 ≤ d.nanos then write 3 "µs"
  else write 0 "ns"

end Duration

end PriceOracle
