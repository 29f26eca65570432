import PriceOracle.Proofs.Decimal.FixedPoint

/-!
# Reading fixed point back

`Decimal.toFixedPoint` works in 256 bits and `Decimal.ofFixedPoint` in 96, so that not every answer
that a value is encoded as can be decoded again.

* `ofFixedPoint_ok`, `ofFixedPoint_overflow`: an answer is decoded, exactly, if and only if it has
  at most 96 bits.
* `fits_iff_readable`: the answer of a value has at most 96 bits if and only if the value, scaled up
  to the decimals of the feed, has (`Readable`). Scaling down always leaves it so.
-/

namespace PriceOracle.Decimal

variable {v w : Decimal} {decimals n : Nat} {width : UInt32} {a : Uint256}

/-- A value is exactly an integer with `decimals` decimals. -/
def Denotes (w : Decimal) (decimals n : Nat) : Prop :=
  w.coefficient * 10 ^ decimals = n * 10 ^ w.scale

/-- A value is another one rounded to `decimals` fractional digits, half going up. -/
def Rounds (v : Decimal) (decimals : Nat) (w : Decimal) : Prop :=
  ∃ n, v.RoundsTo decimals n ∧ w.Denotes decimals n

/-- A value with as many fractional digits as a feed keeps is still a decimal. -/
def Readable (v : Decimal) (decimals : Nat) : Prop :=
  v.coefficient.natAbs * 10 ^ (decimals - v.scale) < 2 ^ 96

instance (v : Decimal) (decimals : Nat) : Decidable (v.Readable decimals) :=
  inferInstanceAs (Decidable (_ < _))

theorem denotes_normalized (h : w.Denotes decimals n) : w.normalized.Denotes decimals n := by
  have hpositive : (10 : Int) ^ w.scale ≠ 0 := pow_ne_zero _ (by decide)
  refine mul_right_cancel₀ hpositive ?_
  calc w.normalized.coefficient * 10 ^ decimals * 10 ^ w.scale
      = w.normalized.coefficient * 10 ^ w.scale * 10 ^ decimals := by ring
    _ = w.coefficient * 10 ^ w.normalized.scale * 10 ^ decimals := by
        rw [show w.normalized.coefficient * 10 ^ w.scale = w.coefficient * 10 ^ w.normalized.scale
          from stripZeros_magnitude _ _]
    _ = w.coefficient * 10 ^ decimals * 10 ^ w.normalized.scale := by ring
    _ = n * 10 ^ w.scale * 10 ^ w.normalized.scale := by rw [h]
    _ = n * 10 ^ w.normalized.scale * 10 ^ w.scale := by ring

/-- An answer of at most 96 bits is decoded exactly. -/
theorem ofFixedPoint_ok (hwidth : width.toNat ≤ 28) (hfits : a.toNat < 2 ^ 96) :
    ∃ w, ofFixedPoint a width = .ok w ∧ w.Denotes width.toNat a.toNat := by
  have hcoefficient : (a.toNat : Int).natAbs < 2 ^ 96 := by rwa [Int.natAbs_natCast]
  let d : Decimal := ⟨a.toNat, width.toNat, hcoefficient, hwidth⟩
  have hparts : ofParts? a.toNat width.toNat = some d := by
    rw [ofParts?, dif_pos hcoefficient, dif_pos hwidth]
  refine ⟨d.normalized, ?_, denotes_normalized rfl⟩
  rw [ofFixedPoint, hparts]

/-- A longer one is not decoded. -/
theorem ofFixedPoint_overflow (hlong : ¬a.toNat < 2 ^ 96) (width : UInt32) :
    ofFixedPoint a width = .error (.overflow a) := by
  have hparts : ofParts? a.toNat width.toNat = none := by
    rw [ofParts?, dif_neg]
    rwa [Int.natAbs_natCast]
  rw [ofFixedPoint, hparts]

/-- A value is scaled down to no more than it was. -/
theorem scaledDown_le (m : Nat) {k : Nat} (hk : 0 < k) : scaledDown m k ≤ m := by
  have htwo : 2 ≤ 10 ^ k :=
    calc 2 ≤ 10 ^ 1 := by decide
      _ ≤ 10 ^ k := Nat.pow_le_pow_right (by decide) hk
  have hle := (scaledDown_bounds m hk).1
  by_contra hlt
  have hlong : 2 * (m + 1) * 10 ^ k ≤ 2 * scaledDown m k * 10 ^ k :=
    Nat.mul_le_mul_right _ (by omega)
  have hgrown : 2 * m * 2 ≤ 2 * m * 10 ^ k := Nat.mul_le_mul_left _ htwo
  have hsplit : 2 * (m + 1) * 10 ^ k = 2 * m * 10 ^ k + 2 * 10 ^ k := by ring
  omega

/-- The answer of a value can be decoded if and only if the value can be read back. -/
theorem fits_iff_readable (h : v.toFixedPoint width = .ok a) :
    a.toNat < 2 ^ 96 ↔ v.Readable width.toNat := by
  obtain ⟨-, hrounds⟩ := roundsTo_of_toFixedPoint h
  by_cases hscale : v.scale ≤ width.toNat
  · rw [hrounds.unique (roundsTo_up hscale), Readable]
  · have hdown := Nat.lt_of_not_le hscale
    have hlt := v.coefficient_lt
    have hanswer : a.toNat < 2 ^ 96 := by
      rw [hrounds.unique (roundsTo_down hdown)]
      exact Nat.lt_of_le_of_lt (scaledDown_le _ (Nat.sub_pos_of_lt hdown)) hlt
    refine iff_of_true hanswer ?_
    rw [Readable, Nat.sub_eq_zero_of_le hdown.le, Nat.pow_zero, Nat.mul_one]
    exact hlt

end PriceOracle.Decimal
