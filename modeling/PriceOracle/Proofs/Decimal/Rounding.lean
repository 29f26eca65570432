import Mathlib.Data.Rat.Floor
import Mathlib.Tactic.FieldSimp
import Mathlib.Tactic.Linarith
import Mathlib.Tactic.NormNum
import Mathlib.Tactic.Positivity
import PriceOracle.Proofs.Decimal.FixedPoint

/-!
# Rounding in exact rationals

A decimal is a rational number (`Decimal.value`), and `Decimal.toFixedPoint` is exact half-up
rounding of it (`toFixedPoint_rounds`): the answer is `⌊value * 10 ^ decimals + 1 / 2⌋` whenever
that fits 256 bits. So the order of values is the order of their answers.

The words of 256 bits that an encoding goes through (`ExactWords`) are never cut, so that nothing
but the size of the answer decides whether there is one.
-/

namespace PriceOracle.Decimal

variable {v w : Decimal} {decimals k n : Nat} {width : UInt32} {a b : Uint256}

/-- The rational number that a decimal is. -/
def value (v : Decimal) : ℚ := (v.coefficient : ℚ) / (10 : ℚ) ^ v.scale

/-- The magnitude of a decimal with a number of decimals, rounded to an integer, half going up. -/
def nearest (v : Decimal) (decimals : Nat) : Nat := ⌊|v.value| * (10 : ℚ) ^ decimals + 1 / 2⌋₊

theorem abs_value (v : Decimal) : |v.value| = (v.coefficient.natAbs : ℚ) / (10 : ℚ) ^ v.scale := by
  rw [value, abs_div, abs_of_pos (by positivity : (0 : ℚ) < 10 ^ v.scale), Nat.cast_natAbs,
    Int.cast_abs]

theorem value_nonneg_iff : 0 ≤ v.value ↔ 0 ≤ v.coefficient := by
  rw [value, le_div_iff₀ (by positivity), zero_mul, Int.cast_nonneg_iff]

/-- Rounding without divisions is rounding of the rational number. -/
theorem roundsTo_iff_nearest : v.RoundsTo decimals n ↔ v.nearest decimals = n := by
  have hpositive : (0 : ℚ) < 10 ^ v.scale := by positivity
  have hscaled : (|v.value| * 10 ^ decimals + 1 / 2) * (2 * 10 ^ v.scale)
      = 2 * v.coefficient.natAbs * 10 ^ decimals + 10 ^ v.scale := by
    rw [abs_value]
    field_simp
  have hfloor : v.nearest decimals = n ↔
      2 * (n : ℚ) * 10 ^ v.scale ≤ 2 * v.coefficient.natAbs * 10 ^ decimals + 10 ^ v.scale ∧
      2 * (v.coefficient.natAbs : ℚ) * 10 ^ decimals + 10 ^ v.scale
        < 2 * (n + 1) * 10 ^ v.scale := by
    rw [nearest, Nat.floor_eq_iff (by positivity), ← hscaled]
    refine and_congr ?_ ?_
    · rw [show 2 * (n : ℚ) * 10 ^ v.scale = n * (2 * 10 ^ v.scale) by ring]
      exact (mul_le_mul_iff_left₀ (by positivity)).symm
    · rw [show 2 * ((n : ℚ) + 1) * 10 ^ v.scale = (n + 1) * (2 * 10 ^ v.scale) by ring]
      exact (mul_lt_mul_iff_left₀ (by positivity)).symm
  rw [hfloor]
  constructor
  · rintro ⟨hle, hlt⟩
    exact ⟨by exact_mod_cast hle, by exact_mod_cast hlt⟩
  · rintro ⟨hle, hlt⟩
    exact ⟨by exact_mod_cast hle, by exact_mod_cast hlt⟩

/-- The larger a magnitude, the larger what it rounds to. -/
theorem nearest_le_of_le (h : |v.value| ≤ |w.value|) : v.nearest decimals ≤ w.nearest decimals := by
  refine Nat.floor_le_floor (add_le_add ?_ le_rfl)
  exact mul_le_mul_of_nonneg_right h (by positivity)

theorem nearest_up (hscale : v.scale ≤ decimals) :
    v.nearest decimals = v.coefficient.natAbs * 10 ^ (decimals - v.scale) :=
  roundsTo_iff_nearest.mp (roundsTo_up hscale)

theorem nearest_down (hscale : decimals < v.scale) :
    v.nearest decimals = scaledDown v.coefficient.natAbs (v.scale - decimals) :=
  roundsTo_iff_nearest.mp (roundsTo_down hscale)

/-! ## The size of answers -/

/-- A value whose answer is decided by its size: zero has no power of ten to be refused for, as long
as the feed has no more decimals than values have. -/
def Roundable (v : Decimal) (width : UInt32) : Prop :=
  0 < v.coefficient ∨ v.coefficient = 0 ∧ width.toNat ≤ 28

theorem Roundable.nonneg (h : v.Roundable width) : 0 ≤ v.coefficient :=
  h.elim le_of_lt fun h => h.1.ge

theorem isNegative_eq_false_iff : v.isNegative = false ↔ 0 ≤ v.coefficient := by
  simp [isNegative]

/-- A power of ten beyond 256 bits takes every positive product there. -/
theorem scaledUp_eq {m : Nat} (h : 0 < m ∨ k ≤ 28) :
    scaledUp? m k = Uint256.ofNat? (m * 10 ^ k) := by
  by_cases hk : k < 78
  · simp [scaledUp?, pow10?, hk]
  · have hm : 0 < m := h.resolve_right (by omega)
    have hlong : 2 ^ 256 ≤ m * 10 ^ k :=
      calc 2 ^ 256 ≤ 1 * 10 ^ 78 := by decide
        _ ≤ m * 10 ^ k := Nat.mul_le_mul hm (Nat.pow_le_pow_right (by decide) (Nat.le_of_not_lt hk))
    simp [scaledUp?, pow10?, hk, Uint256.ofNat?, Nat.not_lt_of_le hlong]

/-- Encoding is rounding, where the rounded value fits. -/
theorem toFixedPoint_eq (h : v.Roundable width) :
    v.toFixedPoint width =
      if hfits : v.nearest width.toNat < 2 ^ 256 then .ok ⟨v.nearest width.toNat, hfits⟩
      else .error (.outOfRange v width) := by
  have hanswer : (if v.scale ≤ width.toNat
      then scaledUp? v.coefficient.natAbs (width.toNat - v.scale)
      else Uint256.ofNat? (scaledDown v.coefficient.natAbs (v.scale - width.toNat)))
      = Uint256.ofNat? (v.nearest width.toNat) := by
    by_cases hscale : v.scale ≤ width.toNat
    · have hsize : 0 < v.coefficient.natAbs ∨ width.toNat - v.scale ≤ 28 := by
        rcases h with h | h <;> omega
      rw [if_pos hscale, scaledUp_eq hsize, nearest_up hscale]
    · rw [if_neg hscale, nearest_down (Nat.lt_of_not_le hscale)]
  simp only [toFixedPoint, hanswer, isNegative_eq_false_iff.mpr h.nonneg, Bool.false_eq_true,
    if_false]
  by_cases hfits : v.nearest width.toNat < 2 ^ 256 <;> simp [Uint256.ofNat?, hfits]

/-- What is encoded is what the value rounds to. -/
theorem nearest_of_toFixedPoint (h : v.toFixedPoint width = .ok a) :
    0 ≤ v.coefficient ∧ v.nearest width.toNat = a.toNat := by
  obtain ⟨hsign, hrounds⟩ := roundsTo_of_toFixedPoint h
  exact ⟨isNegative_eq_false_iff.mp hsign, roundsTo_iff_nearest.mp hrounds⟩

/-- Encoding keeps the order of values, and so does being encoded at all. -/
theorem toFixedPoint_le (h : v.Roundable width) (hle : v.value ≤ w.value)
    (hw : w.toFixedPoint width = .ok b) :
    ∃ a, v.toFixedPoint width = .ok a ∧ a.toNat ≤ b.toNat := by
  have hnonneg : 0 ≤ v.value := value_nonneg_iff.mpr h.nonneg
  have hle' : v.nearest width.toNat ≤ b.toNat := by
    rw [← (nearest_of_toFixedPoint hw).2]
    refine nearest_le_of_le ?_
    rwa [abs_of_nonneg hnonneg, abs_of_nonneg (hnonneg.trans hle)]
  have hfits : v.nearest width.toNat < 2 ^ 256 := Nat.lt_of_le_of_lt hle' b.toNat_lt
  exact ⟨⟨_, hfits⟩, by rw [toFixedPoint_eq h, dif_pos hfits], hle'⟩

/-! ## In words -/

/-- A natural number cut to a word of 256 bits. -/
abbrev word (n : Nat) : BitVec 256 := .ofNat 256 n

/-- A power of ten in words, each product of which is cut. -/
def powerWord : Nat → BitVec 256
  | 0 => word 1
  | k + 1 => powerWord k * word 10

/-- The words of 256 bits that the encoding of a value as an answer goes through are the numbers
that they stand for, and none is divided by zero. -/
structure ExactWords (v : Decimal) (decimals : Nat) (a : Uint256) : Prop where
  coefficient : (word v.coefficient.natAbs).toNat = v.coefficient.natAbs
  up : v.scale ≤ decimals →
    (powerWord (decimals - v.scale)).toNat = 10 ^ (decimals - v.scale) ∧
    (word v.coefficient.natAbs * powerWord (decimals - v.scale)).toNat = a.toNat
  down : decimals < v.scale →
    (powerWord (v.scale - decimals)).toNat = 10 ^ (v.scale - decimals) ∧
    powerWord (v.scale - decimals) ≠ 0 ∧
    (powerWord (v.scale - decimals) / word 2).toNat = 10 ^ (v.scale - decimals) / 2 ∧
    (word v.coefficient.natAbs + powerWord (v.scale - decimals) / word 2).toNat
      = v.coefficient.natAbs + 10 ^ (v.scale - decimals) / 2 ∧
    ((word v.coefficient.natAbs + powerWord (v.scale - decimals) / word 2)
      / powerWord (v.scale - decimals)).toNat = a.toNat

theorem toNat_word (h : n < 2 ^ 256) : (word n).toNat = n := by
  rw [BitVec.toNat_ofNat]
  exact Nat.mod_eq_of_lt h

/-- A power of ten that fits is not cut. -/
theorem toNat_powerWord (h : 10 ^ k < 2 ^ 256) : (powerWord k).toNat = 10 ^ k := by
  have hcut : ∀ j, (powerWord j).toNat = 10 ^ j % 2 ^ 256 := by
    intro j
    induction j with
    | zero => rfl
    | succ j ih =>
      rw [powerWord, BitVec.toNat_mul, ih, toNat_word (by decide), Nat.mod_mul_mod, Nat.pow_succ 10]
  rw [hcut, Nat.mod_eq_of_lt h]

/-- Scaling up only gives an answer where the power of ten fits, too. -/
theorem pow_lt_of_scaledUp {m : Nat} (h : scaledUp? m k = some a) : 10 ^ k < 2 ^ 256 := by
  rw [← pow10_eq_some_iff]
  by_cases hk : k < 78
  · rw [pow10?, if_pos hk]
  · simp [scaledUp?, pow10?, hk] at h

theorem up_of_toFixedPoint (h : v.toFixedPoint width = .ok a) (hscale : v.scale ≤ width.toNat) :
    v.coefficient.natAbs * 10 ^ (width.toNat - v.scale) = a.toNat ∧
      10 ^ (width.toNat - v.scale) < 2 ^ 256 := by
  have hsign : v.isNegative = false := (roundsTo_of_toFixedPoint h).1
  cases hup : scaledUp? v.coefficient.natAbs (width.toNat - v.scale) with
  | none => simp [toFixedPoint, hsign, hscale, hup] at h
  | some a' =>
    obtain rfl : a' = a := by simpa [toFixedPoint, hsign, hscale, hup] using h
    exact ⟨(toNat_of_scaledUp hup).symm, pow_lt_of_scaledUp hup⟩

theorem exactWords_of_toFixedPoint (h : v.toFixedPoint width = .ok a) :
    v.ExactWords width.toNat a := by
  have hanswer := (nearest_of_toFixedPoint h).2
  have hcoefficient : (word v.coefficient.natAbs).toNat = v.coefficient.natAbs :=
    toNat_word (v.coefficient_lt.trans (by decide))
  refine ⟨hcoefficient, fun hscale => ?_, fun hscale => ?_⟩
  · obtain ⟨hup, hsize⟩ := up_of_toFixedPoint h hscale
    refine ⟨toNat_powerWord hsize, ?_⟩
    rw [BitVec.toNat_mul, hcoefficient, toNat_powerWord hsize, hup]
    exact Nat.mod_eq_of_lt a.toNat_lt
  -- Scaling down stays far below the width of a word: 10^28 and a mantissa below 2^96.
  · have hpower : 10 ^ (v.scale - width.toNat) ≤ 10 ^ 28 := by
      have := v.scale_le
      exact Nat.pow_le_pow_right (by decide) (by omega)
    have hpositive : 0 < 10 ^ (v.scale - width.toNat) := Nat.pow_pos (by decide)
    have hword := toNat_powerWord (k := v.scale - width.toNat) (hpower.trans_lt (by decide))
    have hhalf : (powerWord (v.scale - width.toNat) / word 2).toNat
        = 10 ^ (v.scale - width.toNat) / 2 := by
      rw [BitVec.toNat_udiv, hword, toNat_word (by decide)]
    have hsum : (word v.coefficient.natAbs + powerWord (v.scale - width.toNat) / word 2).toNat
        = v.coefficient.natAbs + 10 ^ (v.scale - width.toNat) / 2 := by
      rw [BitVec.toNat_add, hcoefficient, hhalf]
      have hlt := v.coefficient_lt
      exact Nat.mod_eq_of_lt (by omega)
    refine ⟨hword, ?_, hhalf, hsum, ?_⟩
    · intro hzero
      rw [hzero] at hword
      exact hpositive.ne hword
    · rw [BitVec.toNat_udiv, hsum, hword, ← hanswer, nearest_down hscale, scaledDown]

/-- Encoding is exact half-up rounding: for every positive value and for zero on a feed with at most
28 decimals the answer is `⌊value * 10 ^ decimals + 1 / 2⌋`, and there is one exactly if that fits
256 bits, as it always does with at most 28 decimals. No word on the way is cut or divided by zero,
a larger value has a larger answer, and a negative value has none. -/
theorem toFixedPoint_rounds (v : Decimal) (width : UInt32) :
    (v.Roundable width →
      v.toFixedPoint width =
        if hfits : ⌊v.value * (10 : ℚ) ^ width.toNat + 1 / 2⌋₊ < 2 ^ 256 then
          .ok ⟨⌊v.value * (10 : ℚ) ^ width.toNat + 1 / 2⌋₊, hfits⟩
        else .error (.outOfRange v width)) ∧
    (0 ≤ v.coefficient → width.toNat ≤ 28 → ∃ a, v.toFixedPoint width = .ok a) ∧
    (∀ a, v.toFixedPoint width = .ok a → v.ExactWords width.toNat a) ∧
    (∀ (w : Decimal) (b : Uint256), v.Roundable width → v.value ≤ w.value →
      w.toFixedPoint width = .ok b →
      ∃ a, v.toFixedPoint width = .ok a ∧ a.toNat ≤ b.toNat) ∧
    (v.coefficient < 0 → v.toFixedPoint width = .error (.negative v)) := by
  refine ⟨fun h => ?_, fun hnonneg hwidth => ?_, fun a h => exactWords_of_toFixedPoint h,
    fun w b h hle hw => toFixedPoint_le h hle hw, fun hnegative => ?_⟩
  · have hvalue : 0 ≤ v.value := value_nonneg_iff.mpr h.nonneg
    have hnearest : ⌊v.value * (10 : ℚ) ^ width.toNat + 1 / 2⌋₊ = v.nearest width.toNat := by
      rw [nearest, abs_of_nonneg hvalue]
    simp only [hnearest]
    exact toFixedPoint_eq h
  · exact toFixedPoint_of_positive (isNegative_eq_false_iff.mpr hnonneg) hwidth
  · exact toFixedPoint_of_negative (by simpa [isNegative] using hnegative) width

/-- One eighth. -/
def eighth : Decimal := ⟨125, 3, by decide, by decide⟩

/-- One eighth lies half way between two answers with two decimals, and goes to the upper one. -/
theorem toFixedPoint_rounds_eighth :
    eighth.Roundable 2 ∧ eighth.toFixedPoint 2 = .ok ⟨13, by decide⟩ ∧
      eighth.ExactWords 2 ⟨13, by decide⟩ := by
  obtain ⟨hrounds, -, hwords, -⟩ := toFixedPoint_rounds eighth 2
  have hroundable : eighth.Roundable 2 := .inl (by decide)
  have hanswer : eighth.toFixedPoint 2 = .ok ⟨13, by decide⟩ := by
    have hfloor : ⌊eighth.value * (10 : ℚ) ^ (2 : UInt32).toNat + 1 / 2⌋₊ = 13 := by
      rw [show (2 : UInt32).toNat = 2 from rfl, Nat.floor_eq_iff (by norm_num [eighth, value])]
      norm_num [eighth, value]
    simp only [hrounds hroundable, hfloor]
    rfl
  exact ⟨hroundable, hanswer, hwords _ hanswer⟩

end PriceOracle.Decimal
