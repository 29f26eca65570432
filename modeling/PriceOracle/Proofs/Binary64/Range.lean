import Mathlib.Data.Nat.Log
import Mathlib.Data.Rat.Lemmas
import Mathlib.Algebra.Order.Field.Power
import Mathlib.Tactic.Linarith
import Mathlib.Tactic.NormNum
import Mathlib.Tactic.Positivity
import Mathlib.Tactic.Ring
import PriceOracle.Binary64
import PriceOracle.Proofs.Text.Digits

/-!
# The range of doubles

A fraction has a nearest double exactly as long as it is below the middle between the largest double
and the power of two behind it, `2 ^ 1024 - 2 ^ 970` (`nearest_eq_none_iff`): in the middle itself
the tie goes to the even significand, which no double has any more. The same bound holds of digits
with a power of ten (`ofDecimal_eq_none_iff`), although large powers are settled without any
arithmetic.
-/

namespace PriceOracle.Binary64

variable {num den a b k n : Nat} (negative : Bool)

/-- The least magnitude without a nearest double. -/
def overflowBound : Nat := 2 ^ 1024 - 2 ^ 970

theorem overflowBound_eq : overflowBound = (2 ^ 54 - 1) * 2 ^ 970 := by decide +kernel

/-! ## Rounding to an integer -/

theorem div_le_roundDiv (a b : Nat) : a / b ≤ roundDiv a b := by
  unfold roundDiv
  dsimp only
  split
  · exact le_rfl
  · split <;> omega

theorem roundDiv_le (a b : Nat) : roundDiv a b ≤ a / b + 1 := by
  unfold roundDiv
  dsimp only
  split
  · omega
  · split <;> omega

/-- A quotient rounds up to an even number from the middle below that number on. -/
theorem le_roundDiv_iff (hb : 0 < b) (heven : k % 2 = 0) (hk : 0 < k) :
    k ≤ roundDiv a b ↔ (2 * k - 1) * b ≤ 2 * a := by
  have hrest : a % b < b := Nat.mod_lt a hb
  have htwice : 2 * a = 2 * (a / b) * b + 2 * (a % b) := by
    rw [Nat.mul_assoc, Nat.mul_comm (a / b), ← Nat.mul_add, Nat.div_add_mod]
  rcases Nat.lt_trichotomy k (a / b + 1) with hlow | hnext | hhigh
  · have hle : (2 * k - 1) * b ≤ 2 * (a / b) * b := Nat.mul_le_mul_right _ (by omega)
    have hround := div_le_roundDiv a b
    exact iff_of_true (by omega) (by omega)
  · have hodd : (2 * k - 1) * b = 2 * (a / b) * b + b := by
      rw [show 2 * k - 1 = 2 * (a / b) + 1 by omega, Nat.add_mul, Nat.one_mul]
    rw [hodd, htwice]
    unfold roundDiv
    dsimp only
    split
    · omega
    · split <;> omega
  · have hle : (2 * (a / b) + 3) * b ≤ (2 * k - 1) * b := Nat.mul_le_mul_right _ (by omega)
    have hsplit : (2 * (a / b) + 3) * b = 2 * (a / b) * b + 3 * b := Nat.add_mul _ _ _
    have hround := roundDiv_le a b
    exact iff_of_false (by omega) (by omega)

/-! ## The starting exponent -/

theorem lt_two_pow_bitLength (n : Nat) : n < 2 ^ bitLength n := by
  unfold bitLength
  split
  next h => rw [h]; decide
  next h => exact Nat.lt_log2_self

theorem two_pow_bitLength_le (h : 0 < n) : 2 ^ (bitLength n - 1) ≤ n := by
  rw [bitLength, if_neg h.ne', Nat.add_sub_cancel]
  exact Nat.log2_self_le h.ne'

theorem bitLength_pos (h : 0 < n) : 0 < bitLength n := by
  rw [bitLength, if_neg h.ne']
  exact Nat.succ_pos _

theorem bitLength_le_iff : bitLength n ≤ k ↔ n < 2 ^ k := by
  constructor
  · exact fun h => (lt_two_pow_bitLength n).trans_le (Nat.pow_le_pow_right (by decide) h)
  · intro h
    unfold bitLength
    split
    next => exact Nat.zero_le _
    next hne => exact (Nat.log2_lt hne).mpr h

/-- Above the starting exponent, at most 53 bits stand before the point. -/
theorem lt_of_startExponent_lt (hden : 0 < den) (h : startExponent num den < (n : Int)) :
    num < 2 ^ n * 2 ^ 53 * den := by
  have hbits : bitLength num ≤ n + 52 + bitLength den := by
    unfold startExponent minExponent at h
    omega
  have hpos := bitLength_pos hden
  calc num < 2 ^ bitLength num := lt_two_pow_bitLength num
    _ ≤ 2 ^ (n + 53 + (bitLength den - 1)) := Nat.pow_le_pow_right (by decide) (by omega)
    _ = 2 ^ n * 2 ^ 53 * 2 ^ (bitLength den - 1) := by rw [Nat.pow_add, Nat.pow_add]
    _ ≤ 2 ^ n * 2 ^ 53 * den := Nat.mul_le_mul_left _ (two_pow_bitLength_le hden)

/-- At the starting exponent or below, at least 53 bits stand before the point. -/
theorem lt_of_le_startExponent (h : (n : Int) ≤ startExponent num den) :
    2 ^ n * 2 ^ 52 * den < num := by
  have hbits : n + 53 + bitLength den ≤ bitLength num := by
    unfold startExponent minExponent at h
    omega
  have hnum : 0 < num := by
    by_contra hzero
    obtain rfl : num = 0 := by omega
    simp [bitLength] at hbits
  calc 2 ^ n * 2 ^ 52 * den < 2 ^ n * 2 ^ 52 * 2 ^ bitLength den :=
        Nat.mul_lt_mul_of_pos_left (lt_two_pow_bitLength den) (by positivity)
    _ = 2 ^ (n + 52 + bitLength den) := by rw [Nat.pow_add, Nat.pow_add]
    _ ≤ 2 ^ (bitLength num - 1) := Nat.pow_le_pow_right (by decide) (by omega)
    _ ≤ num := two_pow_bitLength_le hnum

/-! ## The nearest double -/

theorem scaledRound_natCast (num den n : Nat) :
    scaledRound num den n = roundDiv num (den * 2 ^ n) := by
  rw [scaledRound, if_pos (Int.natCast_nonneg n), Int.toNat_natCast]

/-- The exponent at which a fraction is rounded: the starting one, or the next. -/
def roundingExponent (num den : Nat) : Int :=
  let e₀ := startExponent num den
  if bitLength (scaledRound num den e₀) ≤ 53 then e₀ else e₀ + 1

/-- A significand of 54 bits gives one of them to the exponent. -/
theorem nearest_eq_none (num den : Nat) :
    nearest? negative num den = none ↔
      let e := roundingExponent num den
      let s := scaledRound num den e
      s = 2 ^ 53 ∧ maxExponent < e + 1 ∨ s ≠ 2 ^ 53 ∧ s ≠ 0 ∧ maxExponent < e := by
  unfold nearest?
  simp only [← roundingExponent.eq_def]
  by_cases hcarry : scaledRound num den (roundingExponent num den) = 2 ^ 53
  · simp [hcarry]
  · by_cases hzero : scaledRound num den (roundingExponent num den) = 0 <;> simp [hcarry, hzero]

/-- From the middle between 53 bits and the power of two behind them on, a significand rounds to
that power. -/
theorem le_scaledRound_iff (hden : 0 < den) (n : Nat) :
    2 ^ 53 ≤ scaledRound num den (n + 1 : Nat) ↔ (2 ^ 54 - 1) * 2 ^ n * den ≤ num := by
  have hmiddle : (2 * 2 ^ 53 - 1) * (den * 2 ^ (n + 1)) = 2 * ((2 ^ 54 - 1) * 2 ^ n * den) := by
    rw [Nat.pow_succ']
    ring
  have hpositive : 0 < den * 2 ^ (n + 1) := Nat.mul_pos hden (Nat.pow_pos (by decide))
  rw [scaledRound_natCast, le_roundDiv_iff hpositive (by decide) (by decide), hmiddle]
  exact Nat.mul_le_mul_left_iff (by decide)

/-- A significand is at least what stands before the point. -/
theorem le_scaledRound (hden : 0 < den) (h : 2 ^ n * k * den ≤ num) :
    k ≤ scaledRound num den n := by
  rw [scaledRound_natCast]
  refine le_trans ?_ (div_le_roundDiv _ _)
  rw [Nat.le_div_iff_mul_le (Nat.mul_pos hden (Nat.pow_pos (by decide)))]
  calc k * (den * 2 ^ n) = 2 ^ n * k * den := by ring
    _ ≤ num := h

/-- A significand is at most the next integer. -/
theorem scaledRound_le (h : num < 2 ^ n * k * den) : scaledRound num den n ≤ k := by
  rw [scaledRound_natCast]
  refine (roundDiv_le _ _).trans (Nat.succ_le_of_lt (Nat.div_lt_of_lt_mul ?_))
  calc num < 2 ^ n * k * den := h
    _ = den * 2 ^ n * k := by ring

/-- No significand vanishes at the starting exponent, nor at the next one. -/
theorem scaledRound_ne_zero (hden : 0 < den) (hn : startExponent num den = (n : Int))
    (hk : k = n ∨ k = n + 1) : scaledRound num den k ≠ 0 := by
  have hone : 1 ≤ scaledRound num den k := by
    refine le_scaledRound hden
      ((Nat.mul_le_mul_right den ?_).trans (lt_of_le_startExponent hn.ge).le)
    rcases hk with rfl | rfl
    · exact Nat.mul_le_mul_left _ (by decide)
    · rw [Nat.pow_succ, Nat.mul_assoc]
      exact Nat.mul_le_mul_left _ (by decide)
  omega

/-- The exponent that a significand is left with is larger than some bound exactly as the fraction
rounds beyond the 53 bits of that exponent. -/
theorem exponent_lt_iff (hden : 0 < den) (n : Nat) :
    (let e := roundingExponent num den
     let s := scaledRound num den e
     s = 2 ^ 53 ∧ ((n + 1 : Nat) : Int) < e + 1 ∨ s ≠ 2 ^ 53 ∧ s ≠ 0 ∧ ((n + 1 : Nat) : Int) < e) ↔
      (2 ^ 54 - 1) * 2 ^ n * den ≤ num := by
  rw [← le_scaledRound_iff hden]
  dsimp only
  by_cases hlow : startExponent num den < (n : Int)
  · -- Even with a carry, the exponent is at most the bound.
    have hbelow : ¬2 ^ 53 ≤ scaledRound num den (n + 1 : Nat) := by
      have hnum := lt_of_startExponent_lt hden hlow
      have hshort : num < 2 ^ (n + 1) * 2 ^ 52 * den := by rwa [Nat.pow_succ, Nat.mul_assoc (2 ^ n)]
      have hle := scaledRound_le hshort
      omega
    have hexponent : roundingExponent num den ≤ n := by
      unfold roundingExponent
      dsimp only
      split <;> omega
    refine iff_of_false ?_ hbelow
    omega
  · obtain ⟨m, hm⟩ : ∃ m : Nat, startExponent num den = m :=
      ⟨_, (Int.toNat_of_nonneg (by omega)).symm⟩
    have hfirst := scaledRound_ne_zero hden hm (.inl rfl)
    have hsecond := scaledRound_ne_zero hden hm (.inr rfl)
    have hnum := lt_of_le_startExponent hm.ge
    have hchosen : roundingExponent num den
        = if scaledRound num den m < 2 ^ 53 then (m : Int) else (m + 1 : Nat) := by
      simp only [roundingExponent, hm, bitLength_le_iff, Nat.cast_add, Nat.cast_one]
    rw [hchosen]
    rcases Nat.lt_trichotomy m (n + 1) with hlt | rfl | hgt
    · -- It is only reached by a carry.
      obtain rfl : m = n := by omega
      by_cases hfits : scaledRound num den m < 2 ^ 53
      · have hbelow : ¬2 ^ 53 ≤ scaledRound num den (m + 1 : Nat) := by
          intro hcarry
          have hle := (le_scaledRound_iff hden m).mp hcarry
          have hlong : 2 ^ 54 - 1 ≤ scaledRound num den m :=
            le_scaledRound hden (by rwa [Nat.mul_comm (2 ^ m)])
          omega
        rw [if_pos hfits]
        exact iff_of_false (by omega) hbelow
      · have hle : scaledRound num den (m + 1 : Nat) ≤ 2 ^ 53 :=
          scaledRound_le (lt_of_startExponent_lt hden (by omega))
        rw [if_neg hfits]
        omega
    · by_cases hfits : scaledRound num den (n + 1 : Nat) < 2 ^ 53
      · rw [if_pos hfits]
        omega
      · rw [if_neg hfits]
        omega
    · have hlong : 2 ^ 53 ≤ scaledRound num den (n + 1 : Nat) := by
        refine le_scaledRound hden (le_trans (Nat.mul_le_mul_right den ?_) hnum.le)
        calc 2 ^ (n + 1) * 2 ^ 53 = 2 ^ (n + 2) * 2 ^ 52 := by ring
          _ ≤ 2 ^ m * 2 ^ 52 := Nat.mul_le_mul_right _ (Nat.pow_le_pow_right (by decide) hgt)
      refine iff_of_true ?_ hlong
      split <;> omega

/-- A fraction has no nearest double from the bound on. -/
theorem nearest_eq_none_iff (hden : 0 < den) :
    nearest? negative num den = none ↔ overflowBound * den ≤ num := by
  rw [nearest_eq_none, overflowBound_eq, ← exponent_lt_iff hden 970]
  rfl

/-! ## Digits with a power of ten -/

variable {digits : Nat} {e : Int}

/-- A power of ten beyond every double. -/
theorem overflowBound_le : overflowBound ≤ 10 ^ 400 := by decide +kernel

theorem overflowBound_pos : 0 < overflowBound := by decide +kernel

/-- Digits with a power of ten have no nearest double from the bound on. -/
theorem ofDecimal_eq_none_iff :
    ofDecimal? negative digits e = none ↔ (overflowBound : ℚ) ≤ digits * (10 : ℚ) ^ e := by
  rcases Nat.eq_zero_or_pos digits with rfl | hdigits
  · have hzero : ofDecimal? negative 0 e ≠ none := by
      rw [ofDecimal?, if_pos rfl]
      exact Option.some_ne_none _
    have hpositive : (0 : ℚ) < overflowBound := Nat.cast_pos.mpr overflowBound_pos
    rw [Nat.cast_zero, zero_mul]
    exact iff_of_false hzero (not_le_of_gt hpositive)
  have hsize : (Digits.ofNat digits).length ≠ 0 :=
    (List.length_pos_of_ne_nil (Digits.ofNat_ne_nil digits)).ne'
  have hupper : (digits : ℚ) < 10 ^ (Digits.ofNat digits).length := by
    exact_mod_cast Digits.lt_pow_length_ofNat digits
  have hlower : (10 : ℚ) ^ ((Digits.ofNat digits).length - 1) ≤ digits := by
    exact_mod_cast Digits.pow_length_ofNat_le hdigits
  have hpower : (0 : ℚ) < (10 : ℚ) ^ e := by positivity
  have hcast (n : ℕ) : ((10 ^ n : ℕ) : ℚ) = (10 : ℚ) ^ (n : ℤ) := by
    rw [Nat.cast_pow, Nat.cast_ofNat, zpow_natCast]
  unfold ofDecimal?
  dsimp only
  rw [if_neg hdigits.ne']
  generalize (Digits.ofNat digits).length = size at *
  by_cases hlarge : 400 < e + size
  · -- The power of ten of the first digit is beyond every double already.
    rw [if_pos hlarge]
    refine iff_of_true rfl ?_
    calc (overflowBound : ℚ) ≤ (10 ^ 400 : ℕ) := Nat.cast_le.mpr overflowBound_le
      _ = (10 : ℚ) ^ ((400 : ℕ) : ℤ) := hcast 400
      _ ≤ (10 : ℚ) ^ ((size - 1 : ℕ) + e) := zpow_le_zpow_right₀ (by norm_num) (by omega)
      _ = (10 : ℚ) ^ (size - 1) * (10 : ℚ) ^ e := by
          rw [zpow_add₀ (by norm_num), zpow_natCast]
      _ ≤ digits * (10 : ℚ) ^ e := mul_le_mul_of_nonneg_right hlower hpower.le
  rw [if_neg hlarge]
  by_cases hsmall : e + size < -400
  · rw [if_pos hsmall]
    refine iff_of_false (by simp) (not_le_of_gt ?_)
    calc digits * (10 : ℚ) ^ e < (10 : ℚ) ^ size * (10 : ℚ) ^ e :=
          mul_lt_mul_of_pos_right hupper hpower
      _ = (10 : ℚ) ^ (size + e) := by rw [zpow_add₀ (by norm_num), zpow_natCast]
      _ ≤ (10 : ℚ) ^ (0 : ℤ) := zpow_le_zpow_right₀ (by norm_num) (by omega)
      _ ≤ overflowBound := by
          rw [zpow_zero]
          exact_mod_cast overflowBound_pos
  rw [if_neg hsmall]
  by_cases hsign : 0 ≤ e
  · obtain ⟨n, rfl⟩ := Int.eq_ofNat_of_zero_le hsign
    rw [if_pos hsign, nearest_eq_none_iff _ Nat.one_pos, Nat.mul_one, Int.toNat_natCast,
      zpow_natCast]
    exact_mod_cast Iff.rfl
  · obtain ⟨n, hn⟩ := Int.eq_ofNat_of_zero_le (a := -e) (by omega)
    obtain rfl : e = -(n : Int) := by omega
    rw [if_neg hsign, neg_neg, Int.toNat_natCast, nearest_eq_none_iff _ (Nat.pow_pos (by decide)),
      zpow_neg, zpow_natCast, ← div_eq_mul_inv, le_div_iff₀ (by positivity)]
    exact_mod_cast Iff.rfl

end PriceOracle.Binary64
