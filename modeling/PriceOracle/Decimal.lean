import PriceOracle.Power
import PriceOracle.Text.Digits

/-!
# Decimal values

A `Decimal` is a coefficient of at most 96 bits over a power of ten of at most 28: the value that
every source yields and every feed is written from. The scale is part of the value (`1.50` and
`1.5` print differently) but not of its magnitude, so comparison goes by magnitude.

* `Decimal.same`, `Decimal.lt`: comparison of magnitudes, by cross-multiplication.
* `Decimal.normalized`: the same magnitude without trailing fractional zeros.
* `Decimal.text`: the written form, with exactly `scale` fractional digits.
-/

namespace PriceOracle

/-- A decimal number, `coefficient / 10 ^ scale`. -/
structure Decimal where
  coefficient : Int
  scale : Nat
  coefficient_lt : coefficient.natAbs < 2 ^ 96
  scale_le : scale ≤ 28
  deriving DecidableEq

namespace Decimal

/-- The largest coefficient. -/
def maxCoefficient : Nat := 2 ^ 96 - 1

/-- The largest number of fractional digits. -/
def maxScale : Nat := 28

/-- The decimal with the given parts, when they are within bounds. -/
def ofParts? (coefficient : Int) (scale : Nat) : Option Decimal :=
  if hc : coefficient.natAbs < 2 ^ 96 then
    if hs : scale ≤ 28 then some ⟨coefficient, scale, hc, hs⟩ else none
  else none

/-- The decimal zero, without fractional digits. -/
def zero : Decimal := ⟨0, 0, by decide, by decide⟩

instance : Inhabited Decimal := ⟨zero⟩

/-- Every integer of at most 95 bits is a decimal. -/
def ofInt? (n : Int) : Option Decimal := ofParts? n 0

def isZero (d : Decimal) : Bool := d.coefficient == 0

def isNegative (d : Decimal) : Bool := d.coefficient < 0

/-- Equality of magnitude: `1.50` and `1.5` are the same. -/
def same (a b : Decimal) : Bool :=
  a.coefficient * 10 ^ b.scale == b.coefficient * 10 ^ a.scale

instance : BEq Decimal := ⟨same⟩

/-- Order of magnitude. -/
def lt (a b : Decimal) : Bool :=
  a.coefficient * 10 ^ b.scale < b.coefficient * 10 ^ a.scale

/-- Divides out trailing zeros while fractional digits remain. -/
def stripZeros : Int → Nat → Int × Nat
  | c, 0 => (c, 0)
  | c, s + 1 => if c % 10 = 0 then stripZeros (c / 10) s else (c, s + 1)

theorem stripZeros_natAbs_le (c : Int) (s : Nat) : (stripZeros c s).1.natAbs ≤ c.natAbs := by
  induction s generalizing c with
  | zero => simp [stripZeros]
  | succ s ih =>
    unfold stripZeros
    split
    · have := ih (c / 10); omega
    · exact Nat.le_refl _

theorem stripZeros_scale_le (c : Int) (s : Nat) : (stripZeros c s).2 ≤ s := by
  induction s generalizing c with
  | zero => simp [stripZeros]
  | succ s ih =>
    unfold stripZeros
    split
    · have := ih (c / 10); omega
    · exact Nat.le_refl _

/-- Dividing out zeros keeps the magnitude. -/
theorem stripZeros_magnitude (c : Int) (s : Nat) :
    (stripZeros c s).1 * 10 ^ s = c * 10 ^ (stripZeros c s).2 := by
  induction s generalizing c with
  | zero => simp [stripZeros]
  | succ s ih =>
    unfold stripZeros
    split
    next h =>
      have hc : c = c / 10 * 10 := by omega
      have := ih (c / 10)
      calc (stripZeros (c / 10) s).1 * 10 ^ (s + 1)
          = ((stripZeros (c / 10) s).1 * 10 ^ s) * 10 := by rw [Int.pow_succ]; ac_rfl
        _ = c / 10 * 10 ^ (stripZeros (c / 10) s).2 * 10 := by rw [this]
        _ = (c / 10 * 10) * 10 ^ (stripZeros (c / 10) s).2 := by ac_rfl
        _ = c * 10 ^ (stripZeros (c / 10) s).2 := by rw [← hc]
    · rfl

/-- The same magnitude without trailing fractional zeros. -/
def normalized (d : Decimal) : Decimal where
  coefficient := (stripZeros d.coefficient d.scale).1
  scale := (stripZeros d.coefficient d.scale).2
  coefficient_lt := Nat.lt_of_le_of_lt (stripZeros_natAbs_le _ _) d.coefficient_lt
  scale_le := Nat.le_trans (stripZeros_scale_le _ _) d.scale_le

/-- The written form: an optional minus sign, digits, and a point before `scale` digits. -/
def chars (d : Decimal) : List Char :=
  let ds := Digits.padded (d.scale + 1) d.coefficient.natAbs
  let whole := ds.take (ds.length - d.scale)
  let fraction := ds.drop (ds.length - d.scale)
  (if d.isNegative then ['-'] else []) ++ whole ++
    (if fraction.isEmpty then [] else '.' :: fraction)

/-- The written form as a string. -/
def text (d : Decimal) : String := String.ofList d.chars

instance : ToString Decimal := ⟨text⟩

end Decimal

end PriceOracle
