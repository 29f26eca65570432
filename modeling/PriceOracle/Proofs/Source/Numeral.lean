import Mathlib.Data.Rat.Floor
import Mathlib.Tactic.FieldSimp
import Mathlib.Tactic.Positivity
import PriceOracle.Proofs.Decimal.Reading
import PriceOracle.Proofs.Decimal.Rounding

/-!
# Numerals

A `Numeral` is a well-formed decimal numeral in its parts: an optional sign, digits with at most one
point, and an optional exponent. It writes a rational number (`Numeral.value`).

A decimal keeps at most 28 places and 96 bits. What is read of a numeral (`Numeral.rounded`) is the
number before its exponent, rounded half up to the most places that fit, with the point moved by the
exponent afterwards. There is such a decimal if the numeral `Fits`, and only then (`reads`,
`reads_none`).
-/

namespace PriceOracle

/-- The sign in front of a numeral or of its exponent, if there is one. -/
inductive Sign where
  | none
  | plus
  | minus
  deriving DecidableEq

/-- How a sign is written. -/
def Sign.chars : Sign → List Char
  | .none => []
  | .plus => ['+']
  | .minus => ['-']

/-- A number with a sign in front. -/
def Sign.apply {α : Type} [Neg α] (sign : Sign) (x : α) : α := if sign = .minus then -x else x

/-- The exponent of a numeral. -/
structure Exponent where
  mark : Char
  sign : Sign
  digits : List Char
  isMark : mark = 'e' ∨ mark = 'E'
  nonempty : digits ≠ []
  isDigit : ∀ c ∈ digits, c.isDigit = true

/-- How an exponent is written. -/
def Exponent.chars (x : Exponent) : List Char := x.mark :: (x.sign.chars ++ x.digits)

/-- The power of ten of an exponent. -/
def Exponent.power (x : Exponent) : Int := x.sign.apply (Digits.toNat x.digits : Int)

/-- A well-formed decimal numeral. There are digits before or behind the point. -/
structure Numeral where
  sign : Sign
  whole : List Char
  fraction : Option (List Char)
  exponent : Option Exponent
  nonempty : whole ++ fraction.getD [] ≠ []
  whole_isDigit : ∀ c ∈ whole, c.isDigit = true
  fraction_isDigit : ∀ c ∈ fraction.getD [], c.isDigit = true

namespace Numeral

variable (n : Numeral)

/-- What stands before the exponent. -/
def plain : List Char := n.sign.chars ++ Decimal.pointed n.whole n.fraction

/-- How a numeral is written. -/
def chars : List Char := n.plain ++ n.exponent.elim [] Exponent.chars

/-- The digits before and behind the point, as one number. -/
def digits : Nat := Digits.toNat (n.whole ++ n.fraction.getD [])

/-- The number of digits behind the point. -/
def places : Nat := (n.fraction.getD []).length

/-- The power of ten that the exponent stands for. -/
def power : Int := n.exponent.elim 0 Exponent.power

/-- The number before sign and exponent. -/
def base : ℚ := (n.digits : ℚ) / (10 : ℚ) ^ n.places

/-- The number that a numeral writes. -/
def value : ℚ := n.sign.apply n.base * (10 : ℚ) ^ n.power

/-! ## Rounding -/

/-- The number before sign and exponent with a number of places, rounded half up to an integer. -/
def nearest (places : Nat) : Nat := ⌊n.base * (10 : ℚ) ^ places + 1 / 2⌋₊

/-- The most places that can be kept: at most 28, and as many as 96 bits hold. -/
def keptPlaces : Nat := Nat.findGreatest (fun k => n.nearest k < 2 ^ 96) (min 28 n.places)

/-- The coefficient that is kept. -/
def kept : Nat := n.nearest n.keptPlaces

/-- What a numeral is read as, if it fits. -/
def rounded : ℚ := n.sign.apply ((n.kept : ℚ) / (10 : ℚ) ^ n.keptPlaces) * (10 : ℚ) ^ n.power

/-- There is a decimal to read the numeral as: what is kept before the exponent has at most 96 bits,
and moving the point leaves it so, by at most 28 places and to at most 28. -/
def Fits : Prop :=
  n.kept < 2 ^ 96 ∧ n.power.natAbs ≤ 28 ∧ (n.keptPlaces : Int) ≤ 28 + n.power ∧
    n.kept * 10 ^ (n.power - n.keptPlaces).toNat < 2 ^ 96

variable {n} {k l x : Nat}

theorem nearest_eq (h : k ≤ n.places) :
    n.nearest k = Decimal.scaledDown n.digits (n.places - k) := by
  have hpow : (10 : ℚ) ^ n.places = (10 : ℚ) ^ (n.places - k) * (10 : ℚ) ^ k := by
    rw [← pow_add, Nat.sub_add_cancel h]
  rw [nearest, base, hpow, ← Decimal.floor_eq_scaledDown, div_mul_eq_div_div, div_mul_cancel₀]
  positivity

theorem keptPlaces_le : n.keptPlaces ≤ min 28 n.places := Nat.findGreatest_le _

theorem keptPlaces_eq :
    n.keptPlaces = Decimal.placesUpTo n.digits n.places (min 28 n.places) := by
  have hsame : ∀ k ≤ min 28 n.places,
      (n.nearest k < 2 ^ 96 ↔ Decimal.scaledDown n.digits (n.places - k) < 2 ^ 96) := fun k hk => by
    rw [nearest_eq (hk.trans (min_le_right _ _))]
  obtain ⟨hle, hfits, hmost⟩ := Nat.findGreatest_eq_iff.mp
    (rfl : Decimal.placesUpTo n.digits n.places (min 28 n.places) = _)
  exact Nat.findGreatest_eq_iff.mpr ⟨hle, fun hne => (hsame _ hle).mpr (hfits hne),
    fun k hlt hk hshort => hmost hlt hk ((hsame k hk).mp hshort)⟩

theorem kept_eq : n.kept = Decimal.scaledDown n.digits (n.places - n.keptPlaces) :=
  nearest_eq (keptPlaces_le.trans (min_le_right _ _))

/-! ## What stands before the exponent -/

/-- The number before the exponent is read rounded. -/
theorem ofPlain_plain (n : Numeral) :
    Decimal.ofPlain? n.plain = if n.kept < 2 ^ 96
      then Decimal.signed? (n.sign = .minus) n.kept n.keptPlaces else none := by
  have hread (negative : Bool) :
      Decimal.whole? negative false 0 (Decimal.pointed n.whole n.fraction)
      = if n.kept < 2 ^ 96 then Decimal.signed? negative n.kept n.keptPlaces else none := by
    rw [Decimal.whole_rounds negative n.whole_isDigit n.fraction_isDigit n.nonempty,
      Decimal.roundedUpTo, kept_eq, keptPlaces_eq]
    rfl
  obtain ⟨c, cs, hcs, hminus, hplus⟩ := Decimal.pointed_head n.nonempty n.whole_isDigit
  unfold plain
  cases hsign : n.sign with
  | none =>
    rw [Sign.chars, List.nil_append, ← hread]
    simp [Decimal.ofPlain?, hcs, hminus, hplus]
  | plus => exact hread false
  | minus => exact hread true

/-! ## The whole numeral -/

theorem plain_unmarked (n : Numeral) : ∀ c ∈ n.plain, c ≠ 'e' ∧ c ≠ 'E' := by
  have hdigit {c : Char} (hc : c.isDigit = true) : c ≠ 'e' ∧ c ≠ 'E' := by
    constructor <;>
    · rintro rfl
      cases hc
  intro c hc
  rcases List.mem_append.mp hc with hsign | hpointed
  · cases hs : n.sign <;> rw [hs] at hsign <;> simp [Sign.chars] at hsign <;> subst hsign <;> decide
  · rcases List.mem_append.mp hpointed with hwhole | hfraction
    · exact hdigit (n.whole_isDigit c hwhole)
    · cases hf : n.fraction with
      | none => simp [hf] at hfraction
      | some digits =>
        rw [hf] at hfraction
        rcases List.mem_cons.mp hfraction with rfl | hfraction
        · decide
        · exact hdigit (n.fraction_isDigit c (by rwa [hf]))

/-- An exponent that is too long to be read would move the point too far anyway. -/
theorem bind_shift {shift : Decimal → Nat → Option Decimal}
    (hfar : ∀ d k, 2 ^ 32 ≤ k → shift d k = none) (d : Decimal) (k : Nat) :
    (if k < 2 ^ 32 then some k else none).bind (shift d) = shift d k := by
  split
  · rfl
  · exact (hfar d k (by omega)).symm

/-- The point is moved by the exponent, to the left or to the right. -/
theorem ofScientific_chars {x : Exponent} (hx : n.exponent = some x) :
    Decimal.ofScientific? n.chars = (Decimal.ofPlain? n.plain).bind fun d =>
      if x.sign = .minus then Decimal.shiftDown? d (Digits.toNat x.digits)
      else Decimal.shiftUp? d (Digits.toNat x.digits) := by
  have hsplit : Decimal.splitExponent n.chars = some (n.plain, x.sign.chars ++ x.digits) := by
    rw [chars, hx]
    exact Decimal.splitExponent_append n.plain_unmarked x.isMark
  have hdown : ∀ d k, 2 ^ 32 ≤ k → Decimal.shiftDown? d k = none := fun d k hk => by
    rw [Decimal.shiftDown?, if_neg (by unfold Decimal.maxScale; omega)]
  have hup : ∀ d k, 2 ^ 32 ≤ k → Decimal.shiftUp? d k = none := fun d k hk => by
    have hscale := d.scale_le
    rw [Decimal.shiftUp?, if_neg (by omega), if_neg (by unfold Decimal.maxScale; omega)]
  unfold Decimal.ofScientific?
  simp only [hsplit, Option.bind_eq_bind, Option.bind_some]
  congr 1
  funext d
  cases hsign : x.sign with
  | none =>
    have hhead : (x.digits.head? == some '-') = false := by
      simpa using (Digits.head_ne_sign x.nonempty x.isDigit).1
    simp only [Sign.chars, List.nil_append, hhead, Decimal.exponent_digits x.nonempty x.isDigit]
    exact bind_shift hup d _
  | plus =>
    show (Decimal.exponent? ('+' :: x.digits)).bind (Decimal.shiftUp? d) = _
    rw [Decimal.exponent_plus x.nonempty x.isDigit]
    exact bind_shift hup d _
  | minus =>
    show (Decimal.exponent? x.digits).bind (Decimal.shiftDown? d) = _
    rw [Decimal.exponent_digits x.nonempty x.isDigit]
    exact bind_shift hdown d _

instance (n : Numeral) : Decidable n.Fits :=
  inferInstanceAs (Decidable (_ ∧ _ ∧ _ ∧ _))

/-- What is kept before the exponent. -/
theorem signed_kept (h : n.kept < 2 ^ 96) :
    ∃ d, Decimal.signed? (n.sign = .minus) n.kept n.keptPlaces = some d ∧
      d.coefficient.natAbs = n.kept ∧ d.scale = n.keptPlaces ∧
      d.value = n.sign.apply ((n.kept : ℚ) / (10 : ℚ) ^ n.keptPlaces) := by
  have hplaces : n.keptPlaces ≤ 28 := keptPlaces_le.trans (min_le_left _ _)
  have hcoefficient (c : Int) (hc : c.natAbs = n.kept) (hsigned : (if decide (n.sign = .minus)
      then -(n.kept : Int) else n.kept) = c) :
      Decimal.signed? (n.sign = .minus) n.kept n.keptPlaces
        = some ⟨c, n.keptPlaces, hc ▸ h, hplaces⟩ := by
    rw [Decimal.signed?, hsigned, Decimal.ofParts?, dif_pos (hc ▸ h), dif_pos hplaces]
  by_cases hsign : n.sign = .minus
  · refine ⟨_, hcoefficient (-(n.kept : Int)) (by omega) (by simp [hsign]), by simp, rfl, ?_⟩
    rw [Decimal.value, Sign.apply, if_pos hsign, Int.cast_neg, neg_div, Int.cast_natCast]
  · refine ⟨_, hcoefficient n.kept (by omega) (by simp [hsign]), by simp, rfl, ?_⟩
    rw [Decimal.value, Sign.apply, if_neg hsign, Int.cast_natCast]

/-- To the left, the point has only so many places to go. -/
theorem fits_left (hkept : n.kept < 2 ^ 96) (hpower : n.power = -(k : Int)) :
    n.Fits ↔ n.keptPlaces + k ≤ 28 := by
  have hstay : (n.power - n.keptPlaces).toNat = 0 := by omega
  rw [Fits, hstay, Nat.pow_zero, Nat.mul_one]
  omega

/-- To the right, the coefficient grows behind the last place. -/
theorem fits_right (hkept : n.kept < 2 ^ 96) (hpower : n.power = (k : Int)) :
    n.Fits ↔ k ≤ 28 ∧ n.kept * 10 ^ (k - n.keptPlaces) < 2 ^ 96 := by
  have hplaces : n.keptPlaces ≤ 28 := keptPlaces_le.trans (min_le_left _ _)
  have hgrown : (n.power - n.keptPlaces).toNat = k - n.keptPlaces := by omega
  rw [Fits, hgrown]
  omega

/-- A numeral with an exponent is not read without one. -/
theorem ofPlain_chars {x : Exponent} (hx : n.exponent = some x) :
    Decimal.ofPlain? n.chars = none := by
  have hmem : x.mark ∈ n.chars := by
    rw [chars, hx]
    exact List.mem_append_right _ List.mem_cons_self
  exact Decimal.ofPlain_marked hmem x.isMark

/-- A numeral whose exponent moves the point. -/
theorem read_moved {x : Exponent} (hx : n.exponent = some x) (hkept : n.kept < 2 ^ 96) :
    (Decimal.ofNumeral? n.chars).map Decimal.value = if n.Fits then some n.rounded else none := by
  obtain ⟨d, hd, hcoefficient, hscale, hvalue⟩ := signed_kept hkept
  have hmark := n.ofPlain_chars hx
  have hread : Decimal.ofNumeral? n.chars = if x.sign = .minus
      then Decimal.shiftDown? d (Digits.toNat x.digits)
      else Decimal.shiftUp? d (Digits.toNat x.digits) := by
    rw [Decimal.ofNumeral?, hmark, ofScientific_chars hx, ofPlain_plain, if_pos hkept, hd]
    rfl
  rw [hread]
  by_cases hsign : x.sign = .minus
  · have hpower : n.power = -(Digits.toNat x.digits : Int) := by
      rw [power, hx, Option.elim_some, Exponent.power, Sign.apply, if_pos hsign]
    rw [if_pos hsign, Decimal.map_value_shiftDown, hscale, hvalue, rounded, hpower, zpow_neg,
      zpow_natCast, ← div_eq_mul_inv]
    simp only [fits_left hkept hpower]
  · have hpower : n.power = (Digits.toNat x.digits : Int) := by
      rw [power, hx, Option.elim_some, Exponent.power, Sign.apply, if_neg hsign]
    rw [if_neg hsign, Decimal.map_value_shiftUp, hscale, hcoefficient, hvalue, rounded, hpower,
      zpow_natCast]
    simp only [fits_right hkept hpower]

/-- A numeral is read rounded if it fits, and otherwise not at all. -/
theorem read (n : Numeral) :
    (Decimal.ofNumeral? n.chars).map Decimal.value = if n.Fits then some n.rounded else none := by
  by_cases hkept : n.kept < 2 ^ 96
  · cases hx : n.exponent with
    | some x => exact read_moved hx hkept
    | none =>
      obtain ⟨d, hd, -, -, hvalue⟩ := signed_kept hkept
      have hpower : n.power = (0 : Nat) := by rw [power, hx, Option.elim_none, Nat.cast_zero]
      have hfits : n.Fits := (fits_right hkept hpower).mpr ⟨by decide, by simpa using hkept⟩
      have hread : Decimal.ofNumeral? n.chars = some d := by
        rw [chars, hx, Option.elim_none, List.append_nil, Decimal.ofNumeral?, ofPlain_plain,
          if_pos hkept, hd]
        rfl
      rw [hread, if_pos hfits, Option.map_some, hvalue, rounded, hpower, Nat.cast_zero, zpow_zero,
        mul_one]
  · -- Without anything kept before the exponent, there is no point to move.
    have hplain : Decimal.ofPlain? n.plain = none := by rw [ofPlain_plain, if_neg hkept]
    have hread : Decimal.ofNumeral? n.chars = none := by
      cases hx : n.exponent with
      | none =>
        rw [chars, hx, Option.elim_none, List.append_nil, Decimal.ofNumeral?, hplain,
          Decimal.ofScientific?, Decimal.splitExponent_none n.plain_unmarked]
        rfl
      | some x =>
        have hmark := n.ofPlain_chars hx
        rw [Decimal.ofNumeral?, hmark, ofScientific_chars hx, hplain]
        rfl
    rw [hread, if_neg fun h => hkept h.1, Option.map_none]

end Numeral

end PriceOracle
