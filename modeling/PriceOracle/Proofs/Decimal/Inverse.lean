import PriceOracle.Proofs.Decimal.Decoding
import PriceOracle.Proofs.Decimal.Rounding

/-!
# Fixed point there and back

`Decimal.ofFixedPoint` and `Decimal.toFixedPoint` undo each other as far as 96 bits reach
(`ofFixedPoint_inverse`): every answer of at most 96 bits with at most 28 decimals is decoded to the
exact quotient, without trailing zeros (`Normal`), and encoded as itself again; and a value that was
encoded comes back within half a unit of the last decimal, exactly where it has no more decimals
than the feed.
-/

namespace PriceOracle.Decimal

variable {v w : Decimal} {decimals n : Nat} {width : UInt32} {a : Uint256}

/-- A decimal has no trailing zero after the point. -/
def Normal (v : Decimal) : Prop := v.scale = 0 ∨ v.coefficient % 10 ≠ 0

theorem stripZeros_normal (c : Int) (s : Nat) :
    (stripZeros c s).2 = 0 ∨ (stripZeros c s).1 % 10 ≠ 0 := by
  induction s generalizing c with
  | zero => exact .inl rfl
  | succ s ih =>
    unfold stripZeros
    split
    · exact ih (c / 10)
    next hdigit => exact .inr hdigit

theorem normalized_normal (v : Decimal) : v.normalized.Normal := stripZeros_normal _ _

/-- Denoting an integer is being its quotient. -/
theorem denotes_iff : w.Denotes decimals n ↔ w.value = n / (10 : ℚ) ^ decimals := by
  rw [value, div_eq_div_iff (by positivity) (by positivity), Denotes]
  norm_cast

/-- A value as a number with `decimals` decimals is what its exact answer denotes. -/
theorem nearest_of_value (h : v.value = n / (10 : ℚ) ^ decimals) : v.nearest decimals = n := by
  have hpositive : (0 : ℚ) < 10 ^ decimals := by positivity
  have hvalue : |v.value| * (10 : ℚ) ^ decimals = n := by
    rw [h, abs_of_nonneg (by positivity), div_mul_cancel₀ _ hpositive.ne']
  rw [nearest, hvalue, Nat.floor_eq_iff (by positivity)]
  constructor <;> linarith

/-- A rounded value is at most half a unit away. -/
theorem abs_nearest_sub_le (hnonneg : 0 ≤ v.value) (decimals : Nat) :
    |(v.nearest decimals : ℚ) - v.value * (10 : ℚ) ^ decimals| ≤ 1 / 2 := by
  have hscaled : 0 ≤ v.value * (10 : ℚ) ^ decimals := by positivity
  have hfloor : v.nearest decimals = ⌊v.value * (10 : ℚ) ^ decimals + 1 / 2⌋₊ := by
    rw [nearest, abs_of_nonneg hnonneg]
  obtain ⟨hle, hlt⟩ := (Nat.floor_eq_iff (by positivity)).mp hfloor.symm
  rw [abs_le]
  constructor <;> linarith

/-! ## Decoding -/

/-- What is decoded is exact and has no trailing zeros. -/
theorem value_of_ofFixedPoint (h : ofFixedPoint a width = .ok w) :
    a.toNat < 2 ^ 96 ∧ width.toNat ≤ 28 ∧ w.value = a.toNat / (10 : ℚ) ^ width.toNat ∧
      w.Normal := by
  have hcoefficient : (a.toNat : Int).natAbs = a.toNat := Int.natAbs_natCast _
  by_cases hfits : a.toNat < 2 ^ 96
  · by_cases hwidth : width.toNat ≤ 28
    · obtain ⟨w', hw', hdenotes⟩ := ofFixedPoint_ok hwidth hfits
      obtain rfl : w' = w := Except.ok.inj (hw'.symm.trans h)
      refine ⟨hfits, hwidth, denotes_iff.mp hdenotes, ?_⟩
      rw [ofFixedPoint] at h
      split at h
      · obtain rfl := Except.ok.inj h
        exact normalized_normal _
      · cases h
    · rw [ofFixedPoint, ofParts?, dif_pos (hcoefficient.symm ▸ hfits), dif_neg hwidth] at h
      cases h
  · rw [ofFixedPoint_overflow hfits] at h
    cases h

/-- Encoding a decoded answer gives it back. -/
theorem toFixedPoint_ofFixedPoint (h : ofFixedPoint a width = .ok w) :
    w.toFixedPoint width = .ok a := by
  obtain ⟨-, hwidth, hvalue, -⟩ := value_of_ofFixedPoint h
  have hnonneg : 0 ≤ w.coefficient := by
    rw [← value_nonneg_iff, hvalue]
    positivity
  rw [toFixedPoint_ok_iff hwidth, roundsTo_iff_nearest]
  exact ⟨isNegative_eq_false_iff.mpr hnonneg, nearest_of_value hvalue⟩

/-- Decoding an encoded value gives it back, rounded. -/
theorem ofFixedPoint_toFixedPoint (hwidth : width.toNat ≤ 28) (h : v.toFixedPoint width = .ok a)
    (hfits : a.toNat < 2 ^ 96) :
    ∃ w, ofFixedPoint a width = .ok w ∧
      |w.value - v.value| ≤ 1 / 2 / (10 : ℚ) ^ width.toNat ∧
      ∀ n : ℤ, v.value * (10 : ℚ) ^ width.toNat = n → w.value = v.value := by
  have hpositive : (0 : ℚ) < 10 ^ width.toNat := by positivity
  obtain ⟨hnonneg, hnearest⟩ := nearest_of_toFixedPoint h
  have hvalue : 0 ≤ v.value := value_nonneg_iff.mpr hnonneg
  obtain ⟨w, hw, hdenotes⟩ := ofFixedPoint_ok hwidth hfits
  have hback : w.value = a.toNat / (10 : ℚ) ^ width.toNat := denotes_iff.mp hdenotes
  refine ⟨w, hw, ?_, fun n hn => ?_⟩
  · have hdistance := abs_nearest_sub_le hvalue width.toNat
    have hscaled : w.value - v.value
        = (v.nearest width.toNat - v.value * (10 : ℚ) ^ width.toNat) / 10 ^ width.toNat := by
      rw [hback, hnearest]
      field_simp
    rw [hscaled, abs_div, abs_of_pos hpositive]
    exact div_le_div_of_nonneg_right hdistance hpositive.le
  · -- A value that is an integer with these decimals rounds to itself.
    have hinteger : (0 : ℚ) ≤ n := by
      rw [← hn]
      positivity
    obtain ⟨m, rfl⟩ := Int.eq_ofNat_of_zero_le (Int.cast_nonneg_iff.mp hinteger)
    have hexact : v.value = m / (10 : ℚ) ^ width.toNat := by
      rw [eq_div_iff hpositive.ne', hn, Int.cast_natCast]
    rw [hback, hexact, ← hnearest, nearest_of_value hexact]

/-- Decoding and encoding are inverse on answers of at most 96 bits with at most 28 decimals. Those
and no others are decoded, to the exact quotient without trailing zeros, and encoded as themselves
again; and a value whose answer is one of them is decoded within half a unit of the last decimal,
and exactly if it has no more decimals than the feed. -/
theorem ofFixedPoint_inverse (a : Uint256) (width : UInt32) :
    ((∃ w, ofFixedPoint a width = .ok w) ↔ a.toNat ≤ 2 ^ 96 - 1 ∧ width.toNat ≤ 28) ∧
    (∀ w, ofFixedPoint a width = .ok w →
      w.value = a.toNat / (10 : ℚ) ^ width.toNat ∧ w.Normal ∧ w.toFixedPoint width = .ok a) ∧
    (∀ v : Decimal, 0 ≤ v.coefficient → width.toNat ≤ 28 → v.toFixedPoint width = .ok a →
      a.toNat ≤ 2 ^ 96 - 1 →
      ∃ w, ofFixedPoint a width = .ok w ∧
        |w.value - v.value| ≤ 1 / 2 / (10 : ℚ) ^ width.toNat ∧
        ∀ n : ℤ, v.value * (10 : ℚ) ^ width.toNat = n → w.value = v.value) := by
  refine ⟨⟨?_, ?_⟩, fun w h => ?_, fun v _ hwidth h hfits => ?_⟩
  · rintro ⟨w, h⟩
    obtain ⟨hfits, hwidth, -⟩ := value_of_ofFixedPoint h
    exact ⟨by omega, hwidth⟩
  · rintro ⟨hfits, hwidth⟩
    obtain ⟨w, h, -⟩ := ofFixedPoint_ok hwidth (a := a) (by omega)
    exact ⟨w, h⟩
  · obtain ⟨-, -, hvalue, hnormal⟩ := value_of_ofFixedPoint h
    exact ⟨hvalue, hnormal, toFixedPoint_ofFixedPoint h⟩
  · exact ofFixedPoint_toFixedPoint hwidth h (by omega)

/-- One eighth, as thirteen with two decimals, is decoded half a unit off. -/
theorem ofFixedPoint_inverse_eighth :
    ∃ w, ofFixedPoint ⟨13, by decide⟩ 2 = .ok w ∧ w.toFixedPoint 2 = .ok ⟨13, by decide⟩ ∧
      w.Normal ∧ |w.value - eighth.value| ≤ 1 / 2 / (10 : ℚ) ^ (2 : UInt32).toNat := by
  obtain ⟨-, hdecodes, hencoded⟩ := ofFixedPoint_inverse ⟨13, by decide⟩ 2
  obtain ⟨w, hw, hdistance, -⟩ := hencoded eighth (by decide) (by decide) rfl (by decide)
  obtain ⟨-, hnormal, hback⟩ := hdecodes w hw
  exact ⟨w, hw, hback, hnormal, hdistance⟩

end PriceOracle.Decimal
