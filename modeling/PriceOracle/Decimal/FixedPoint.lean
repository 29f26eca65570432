import PriceOracle.Decimal
import PriceOracle.Uint256

/-!
# Fixed-point integers

Feeds store a value as an integer with a fixed number of decimals.

* `Decimal.toFixedPoint` encodes `round(value * 10 ^ decimals)`, half going up.
* `Decimal.ofFixedPoint` decodes an integer of at most 96 bits, without trailing zeros.
* `Decimal.ofUint256` takes an integer as it is.
-/

namespace PriceOracle

/-- Why a value has no exact counterpart on the other side. -/
inductive NumericError where
  | overflow (value : Uint256)
  | negative (value : Decimal)
  | outOfRange (value : Decimal) (decimals : UInt32)
  deriving DecidableEq

/-- The wording of a failed conversion. -/
def NumericError.message : NumericError → String
  | .overflow value => s!"Value {value.text} does not fit the numeric precision"
  | .negative value => s!"Negative value {value.text} cannot be encoded as an unsigned answer"
  | .outOfRange value decimals => s!"Value {value.text} with {decimals} decimals exceeds uint256"

namespace Decimal

/-- An unsigned integer of at most 96 bits as a decimal. -/
def ofUint256 (a : Uint256) : Except NumericError Decimal :=
  match ofParts? a.toNat 0 with
  | some d => .ok d
  | none => .error (.overflow a)

/-- The decimal that an integer with `decimals` decimals stands for. -/
def ofFixedPoint (a : Uint256) (decimals : UInt32) : Except NumericError Decimal :=
  match ofParts? a.toNat decimals.toNat with
  | some d => .ok d.normalized
  | none => .error (.overflow a)

/-- The power of ten with `n` zeros, when it fits 256 bits. -/
def pow10? (n : Nat) : Option Nat := if n < 78 then some (10 ^ n) else none

/-- The magnitude times ten to the `n`, when both the power and the product fit 256 bits. -/
def scaledUp? (magnitude n : Nat) : Option Uint256 := do
  let power ← pow10? n
  Uint256.ofNat? (magnitude * power)

/-- The magnitude over ten to the `n`, rounded to the nearest integer, half going up. -/
def scaledDown (magnitude n : Nat) : Nat := (magnitude + 10 ^ n / 2) / 10 ^ n

/-- The value as an integer with `decimals` decimals. -/
def toFixedPoint (d : Decimal) (decimals : UInt32) : Except NumericError Uint256 :=
  let magnitude := d.coefficient.natAbs
  let answer? :=
    if d.scale ≤ decimals.toNat then scaledUp? magnitude (decimals.toNat - d.scale)
    else Uint256.ofNat? (scaledDown magnitude (d.scale - decimals.toNat))
  if d.isNegative then .error (.negative d)
  else match answer? with
    | some a => .ok a
    | none => .error (.outOfRange d decimals)

/-- Powers of ten fit 256 bits up to the 77th. -/
theorem pow10_eq_some_iff (n : Nat) : pow10? n = some (10 ^ n) ↔ 10 ^ n < 2 ^ 256 := by
  constructor
  · intro h
    have hn : n < 78 := by
      unfold pow10? at h
      split at h
      · assumption
      · cases h
    calc 10 ^ n ≤ 10 ^ 77 := Nat.pow_le_pow_right (by decide) (by omega)
      _ < 2 ^ 256 := by decide
  · intro h
    have hn : n < 78 := by
      apply Nat.lt_of_not_le
      intro hle
      have h₁ : 10 ^ 78 ≤ 10 ^ n := Nat.pow_le_pow_right (by decide) hle
      have h₂ : 2 ^ 256 ≤ 10 ^ 78 := by decide
      omega
    simp [pow10?, hn]

end Decimal

end PriceOracle
