import Mathlib.Data.Nat.Find
import Mathlib.Tactic.Linarith
import Mathlib.Tactic.Ring
import PriceOracle.Proofs.Decimal.Decoding
import PriceOracle.Proofs.Decimal.Numeral
import PriceOracle.Proofs.Decimal.Rounding

/-!
# Reading rounds

A numeral may have more digits than a decimal keeps. `Decimal.whole?` and `Decimal.fraction?` look
at one digit at a time, and at none behind the first that does not fit; all the same, what they
answer is the whole numeral, rounded once and half going up, to the most places at which it fits 96
bits (`whole_rounds`). So the digits behind that first one never decide, and giving up a place when
a coefficient grows too long is no second rounding.
-/

namespace PriceOracle.Decimal

variable {x y z d j l top top' m s : Nat}

theorem scaledDown_zero (x : Nat) : scaledDown x 0 = x := by simp [scaledDown]

/-- Zeros are left out without rounding. -/
theorem scaledDown_mul (m j : Nat) : scaledDown (m * 10 ^ j) j = m := by
  have hpositive : 0 < 10 ^ j := Nat.pow_pos (by decide)
  rw [scaledDown, Nat.mul_comm, Nat.mul_add_div hpositive,
    Nat.div_eq_of_lt (Nat.div_lt_self hpositive (by decide)), Nat.add_zero]

/-- Scaling down is rounding of the rational number. -/
theorem floor_eq_scaledDown (x k : Nat) :
    ⌊(x : ℚ) / (10 : ℚ) ^ k + 1 / 2⌋₊ = scaledDown x k := by
  have hbounds : 2 * scaledDown x k * 10 ^ k ≤ 2 * x + 10 ^ k ∧
      2 * x + 10 ^ k < 2 * (scaledDown x k + 1) * 10 ^ k := by
    rcases Nat.eq_zero_or_pos k with rfl | hk
    · rw [scaledDown_zero, Nat.pow_zero]
      omega
    · exact scaledDown_bounds x hk
  obtain ⟨hle, hlt⟩ := hbounds
  have hpositive : (0 : ℚ) < 2 * (10 : ℚ) ^ k := by positivity
  have hscaled :
      ((x : ℚ) / (10 : ℚ) ^ k + 1 / 2) = (2 * x + (10 : ℚ) ^ k) / (2 * (10 : ℚ) ^ k) := by
    field_simp
  rw [Nat.floor_eq_iff (by positivity), hscaled, le_div_iff₀ hpositive, div_lt_iff₀ hpositive]
  constructor
  · calc (scaledDown x k : ℚ) * (2 * (10 : ℚ) ^ k)
        = 2 * scaledDown x k * (10 : ℚ) ^ k := by ring
      _ ≤ 2 * x + (10 : ℚ) ^ k := by exact_mod_cast hle
  · calc 2 * (x : ℚ) + (10 : ℚ) ^ k < 2 * (scaledDown x k + 1) * (10 : ℚ) ^ k := by
          exact_mod_cast hlt
      _ = (scaledDown x k + 1) * (2 * (10 : ℚ) ^ k) := by ring

/-- The first digit that is left out decides how a number is rounded. -/
theorem scaledDown_cut (hd : d < 10) (hz : z < 10 ^ j) :
    scaledDown (y * 10 ^ (j + 1) + (d * 10 ^ j + z)) (j + 1) = if d < 5 then y else y + 1 := by
  have hpositive : 0 < 10 ^ j := Nat.pow_pos (by decide)
  have hpow : 10 ^ (j + 1) = 10 * 10 ^ j := by rw [Nat.pow_succ, Nat.mul_comm]
  have hhalf : 10 ^ (j + 1) / 2 = 5 * 10 ^ j := by omega
  rw [scaledDown, hhalf, hpow]
  -- Powers of ten are left as they are from here on.
  generalize 10 ^ j = p at *
  split
  next hlow =>
    have hle : d * p ≤ 4 * p := Nat.mul_le_mul_right _ (by omega)
    refine Nat.div_eq_of_lt_le ?_ ?_ <;> rw [Nat.mul_left_comm] <;> nlinarith
  next hhigh =>
    have hle : 5 * p ≤ d * p := Nat.mul_le_mul_right _ (by omega)
    have hge : d * p ≤ 9 * p := Nat.mul_le_mul_right _ (by omega)
    refine Nat.div_eq_of_lt_le ?_ ?_ <;> nlinarith

theorem div_le_scaledDown (x j : Nat) : x / 10 ^ j ≤ scaledDown x j :=
  Nat.div_le_div_right (Nat.le_add_right _ _)

/-- A number with digits left out is at least what they are left out of. -/
theorem le_scaledDown {n : Nat} (h : n * 10 ^ j ≤ x) : n ≤ scaledDown x j :=
  ((Nat.le_div_iff_mul_le (Nat.pow_pos (by decide))).mpr h).trans (div_le_scaledDown x j)

/-! ## The most places that fit -/

/-- The most places, up to some number, to which `x / 10 ^ l` can be rounded within 96 bits. -/
def placesUpTo (x l top : Nat) : Nat :=
  Nat.findGreatest (fun k => scaledDown x (l - k) < 2 ^ 96) top

/-- `x / 10 ^ l` rounded to the most places that fit, up to some number of them. -/
def roundedUpTo (negative : Bool) (x l top : Nat) : Option Decimal :=
  let k := placesUpTo x l top
  if scaledDown x (l - k) < 2 ^ 96 then signed? negative (scaledDown x (l - k)) k else none

variable (negative : Bool)

/-- Places that do not fit may be left out. -/
theorem roundedUpTo_of_long (hle : top ≤ top')
    (hlong : ∀ k, top < k → k ≤ top' → 2 ^ 96 ≤ scaledDown x (l - k)) :
    roundedUpTo negative x l top' = roundedUpTo negative x l top := by
  have hplaces : placesUpTo x l top' = placesUpTo x l top := by
    induction top' with
    | zero => rw [Nat.le_zero.mp hle]
    | succ n ih =>
      rcases Nat.lt_or_eq_of_le hle with hlt | rfl
      · have hnot : ¬scaledDown x (l - (n + 1)) < 2 ^ 96 :=
          Nat.not_lt_of_le (hlong (n + 1) hlt le_rfl)
        rw [placesUpTo, Nat.findGreatest_of_not (P := fun k => scaledDown x (l - k) < 2 ^ 96) hnot]
        exact ih (Nat.le_of_lt_succ hlt) fun k hk hkn => hlong k hk (hkn.trans (Nat.le_succ n))
      · rfl
  rw [roundedUpTo, hplaces, roundedUpTo]

/-- Places that fit are taken. -/
theorem roundedUpTo_of_fits (h : scaledDown x (l - top) < 2 ^ 96) :
    roundedUpTo negative x l top = signed? negative (scaledDown x (l - top)) top := by
  have hplaces : placesUpTo x l top = top := Nat.findGreatest_eq h
  rw [roundedUpTo, hplaces, if_pos h]

/-- Not even an integer may fit. -/
theorem roundedUpTo_none (h : ∀ k ≤ top, 2 ^ 96 ≤ scaledDown x (l - k)) :
    roundedUpTo negative x l top = none := by
  have hlong : 2 ^ 96 ≤ scaledDown x (l - placesUpTo x l top) := h _ (Nat.findGreatest_le top)
  rw [roundedUpTo, if_neg (Nat.not_lt_of_le hlong)]

/-! ## Digits that are left out -/

variable {rest : List Char}

/-- The end of a numeral that has more digits than fit is half-up rounding of all its digits. -/
theorem rounded_eq (hspare : rest.all isSpare = true) (hm : m < 2 ^ 96) (hd : d < 10)
    (hz : z < 10 ^ j) (hx : x = m * 10 ^ (j + 1) + (d * 10 ^ j + z)) :
    rounded? negative m s d rest = roundedUpTo negative x (s + (j + 1)) s := by
  have hcut : scaledDown x (s + (j + 1) - s) = if d < 5 then m else m + 1 := by
    rw [Nat.add_sub_cancel_left, hx]
    exact scaledDown_cut hd hz
  have hall : (!rest.all isSpare) = false := by rw [hspare]; rfl
  rw [rounded?, hall, if_neg Bool.false_ne_true]
  by_cases hlow : d < 5
  · rw [if_pos hlow] at hcut ⊢
    rw [roundedUpTo_of_fits negative (hcut ▸ hm), hcut]
  · rw [if_neg hlow] at hcut ⊢
    by_cases hfits : m + 1 < 2 ^ 96
    · rw [if_pos hfits, roundedUpTo_of_fits negative (hcut ▸ hfits), hcut]
    · -- The coefficient is the largest one, and the number rounds up to one place less.
      have hlargest : m = m / 10 * 10 + 5 := by omega
      rw [if_neg hfits]
      cases s with
      | zero =>
        rw [if_pos rfl, roundedUpTo_none]
        intro k hk
        rw [Nat.le_zero.mp hk, hcut]
        omega
      | succ s =>
        have hpow : 10 ^ (j + 1) = 10 * 10 ^ j := by rw [Nat.pow_succ, Nat.mul_comm]
        have hleft : d * 10 ^ j + z < 10 ^ (j + 1) := by
          have hle : d * 10 ^ j ≤ 9 * 10 ^ j := Nat.mul_le_mul_right _ (by omega)
          omega
        have hx' : x = m / 10 * 10 ^ (j + 1 + 1) + (5 * 10 ^ (j + 1) + (d * 10 ^ j + z)) := by
          rw [hx, Nat.pow_succ 10 (j + 1)]
          calc m * 10 ^ (j + 1) + (d * 10 ^ j + z)
              = (m / 10 * 10 + 5) * 10 ^ (j + 1) + (d * 10 ^ j + z) := by rw [← hlargest]
            _ = _ := by ring
        have hback : scaledDown x (s + 1 + (j + 1) - s) = (m + 1 + 4) / 10 := by
          rw [show s + 1 + (j + 1) - s = j + 1 + 1 by omega, hx',
            scaledDown_cut (by decide) hleft]
          simp only [Nat.lt_irrefl, if_false]
          omega
        have hshort : (m + 1 + 4) / 10 < 2 ^ 96 := by omega
        rw [if_neg (Nat.succ_ne_zero s), Nat.add_sub_cancel,
          roundedUpTo_of_long negative (Nat.le_succ s),
          roundedUpTo_of_fits negative (hback ▸ hshort), hback]
        intro k hk hks
        obtain rfl : k = s + 1 := by omega
        rw [hcut]
        omega

theorem isSpare_of_isDigit {cs : List Char} (h : ∀ c ∈ cs, c.isDigit = true) :
    cs.all isSpare = true :=
  List.all_eq_true.mpr fun c hc => by rw [isSpare, h c hc, Bool.true_or]

/-- The digits after the point are read with half-up rounding to the most places that fit. -/
theorem fraction_rounds {digits : List Char} (hdigits : ∀ c ∈ digits, c.isDigit = true)
    {seen : Bool} (hseen : seen = true ∨ digits ≠ []) (hs : s ≤ 28) (hm : m < 2 ^ 96) :
    fraction? negative seen m s digits
      = roundedUpTo negative (Digits.toNatFrom m digits) (s + digits.length)
          (min 28 (s + digits.length)) := by
  induction digits generalizing seen m s with
  | nil =>
    obtain rfl : seen = true := hseen.resolve_right (by simp)
    have hexact : scaledDown m (s - s) = m := by rw [Nat.sub_self, scaledDown_zero]
    rw [List.length_nil, Nat.add_zero, Nat.min_eq_right hs, Digits.toNatFrom_nil,
      roundedUpTo_of_fits negative (hexact.symm ▸ hm), hexact]
    rfl
  | cons c digits ih =>
    have hc := hdigits c List.mem_cons_self
    have hrest : ∀ c ∈ digits, c.isDigit = true := fun d hd => hdigits d (List.mem_cons_of_mem _ hd)
    have hvalue : Digits.toNatFrom m (c :: digits)
        = m * 10 ^ (digits.length + 1)
          + (Digits.value c * 10 ^ digits.length + Digits.toNat digits) := by
      rw [Digits.toNatFrom_eq, Digits.toNat_cons, List.length_cons]
    have hrounded := rounded_eq negative (s := s) (isSpare_of_isDigit hrest) hm
      (Digits.value_lt hc) (Digits.toNat_lt hrest) hvalue
    rw [fraction?, if_pos hc, List.length_cons]
    by_cases hfull : 28 ≤ s
    · -- There is no place left.
      obtain rfl : s = 28 := by omega
      rw [if_pos hfull, hrounded, Nat.min_eq_left (Nat.le_add_right _ _)]
    · rw [if_neg hfull]
      by_cases hfits : m * 10 + Digits.value c < 2 ^ 96
      · rw [if_pos hfits, ih hrest (.inl rfl) (by omega) hfits, Digits.toNatFrom_cons,
          Nat.add_right_comm, Nat.add_assoc]
      · -- The digit does not fit any more, nor does any after it.
        rw [if_neg hfits, hrounded]
        refine (roundedUpTo_of_long negative (by omega) fun k hk hk' => ?_).symm
        refine le_scaledDown ?_
        calc 2 ^ 96 * 10 ^ (s + (digits.length + 1) - k)
            ≤ (m * 10 + Digits.value c) * 10 ^ digits.length :=
              Nat.mul_le_mul (Nat.le_of_not_lt hfits)
                (Nat.pow_le_pow_right (by decide) (by omega))
          _ ≤ Digits.toNatFrom m (c :: digits) := by
              rw [Digits.toNatFrom_cons, Digits.toNatFrom_eq]
              exact Nat.le_add_right _ _

/-- Digits before the point that do not fit are not read. -/
theorem whole_long {digits : List Char} (hdigits : ∀ c ∈ digits, c.isDigit = true) (seen : Bool)
    (hm : m < 2 ^ 96) (hlong : 2 ^ 96 ≤ Digits.toNatFrom m digits) (rest : List Char) :
    whole? negative seen m (digits ++ rest) = none := by
  induction digits generalizing seen m with
  | nil => exact absurd hm (Nat.not_lt_of_le hlong)
  | cons c digits ih =>
    rw [List.cons_append, whole?, if_pos (hdigits c List.mem_cons_self)]
    rw [Digits.toNatFrom_cons] at hlong
    by_cases hnext : m * 10 + Digits.value c < 2 ^ 96
    · rw [if_pos hnext]
      exact ih (fun d hd => hdigits d (List.mem_cons_of_mem _ hd)) true hnext hlong
    · rw [if_neg hnext]

/-- Digits around an optional point. -/
def pointed (whole : List Char) (fraction : Option (List Char)) : List Char :=
  whole ++ fraction.elim [] ('.' :: ·)

variable {whole : List Char} {fraction : Option (List Char)}

/-- Digits before the point that fit are read, whether or not there are any. -/
theorem whole_fits (hwhole : ∀ c ∈ whole, c.isDigit = true) (hfits : Digits.toNat whole < 2 ^ 96)
    (rest : List Char) :
    whole? negative false 0 (whole ++ rest)
      = whole? negative (!whole.isEmpty) (Digits.toNat whole) rest := by
  cases whole with
  | nil => rfl
  | cons c cs =>
    rw [List.cons_append, whole_first negative (hwhole c List.mem_cons_self), ← List.cons_append,
      whole_digits negative hwhole hfits]
    rfl

/-- Digits with an optional point are read with half-up rounding to the most places that fit. -/
theorem whole_rounds (hwhole : ∀ c ∈ whole, c.isDigit = true)
    (hfraction : ∀ c ∈ fraction.getD [], c.isDigit = true) (hne : whole ++ fraction.getD [] ≠ []) :
    whole? negative false 0 (pointed whole fraction)
      = roundedUpTo negative (Digits.toNat (whole ++ fraction.getD []))
          (fraction.getD []).length (min 28 (fraction.getD []).length) := by
  have hsplit : Digits.toNat (whole ++ fraction.getD [])
      = Digits.toNatFrom (Digits.toNat whole) (fraction.getD []) := Digits.toNatFrom_append 0 _ _
  by_cases hfits : Digits.toNat whole < 2 ^ 96
  · rw [pointed, whole_fits negative hwhole hfits, hsplit]
    cases fraction with
    | none =>
      have hseen : (!whole.isEmpty) = true := by simpa using hne
      have hread := fraction_rounds negative hfraction (.inl hseen) (Nat.zero_le 28) hfits
      rwa [Nat.zero_add] at hread
    | some digits =>
      have hseen : (!whole.isEmpty) = true ∨ digits ≠ [] := by
        rcases List.eq_nil_or_concat whole with rfl | ⟨cs, c, rfl⟩
        · exact .inr hne
        · exact .inl (by simp)
      have hread := fraction_rounds negative hfraction hseen (Nat.zero_le 28) hfits
      rwa [Nat.zero_add] at hread
  · -- The digits before the point alone are too many.
    have hlong : 2 ^ 96 ≤ Digits.toNat whole := Nat.le_of_not_lt hfits
    rw [pointed, whole_long negative hwhole false (by decide) hlong, roundedUpTo_none]
    intro k hk
    refine le_scaledDown ?_
    calc 2 ^ 96 * 10 ^ ((fraction.getD []).length - k)
        ≤ Digits.toNat whole * 10 ^ (fraction.getD []).length :=
          Nat.mul_le_mul hlong (Nat.pow_le_pow_right (by decide) (Nat.sub_le _ _))
      _ ≤ Digits.toNat (whole ++ fraction.getD []) := by
          rw [hsplit, Digits.toNatFrom_eq]
          exact Nat.le_add_right _ _

theorem pointed_head {whole : List Char} {fraction : Option (List Char)}
    (hne : whole ++ fraction.getD [] ≠ []) (hwhole : ∀ c ∈ whole, c.isDigit = true) :
    ∃ c cs, pointed whole fraction = c :: cs ∧ (c == '-') = false ∧ (c == '+') = false := by
  cases whole with
  | cons c cs =>
    have hc := hwhole c List.mem_cons_self
    refine ⟨c, _, rfl, ?_, ?_⟩ <;>
    · rw [beq_eq_false_iff_ne]
      rintro rfl
      cases hc
  | nil =>
    cases fraction with
    | none => exact absurd rfl hne
    | some digits => exact ⟨'.', digits, rfl, rfl, rfl⟩

/-! ## Exponents -/

theorem rounded_foreign {rest : List Char} {c : Char} (hc : c ∈ rest)
    (hforeign : isSpare c = false) (negative : Bool) (m s d : Nat) :
    rounded? negative m s d rest = none := by
  have hall : rest.all isSpare = false := List.all_eq_false.mpr ⟨c, hc, by simp [hforeign]⟩
  rw [rounded?, hall]
  rfl

/-- A decimal without an exponent has no other characters, behind its point or before it. -/
theorem digits_foreign {cs : List Char} {c : Char} (hc : c ∈ cs) (hforeign : isSpare c = false)
    (negative : Bool) :
    (∀ seen m s, fraction? negative seen m s cs = none) ∧
      ((c == '.') = false → ∀ seen m, whole? negative seen m cs = none) := by
  -- Both are read on at once, as what stands before the point is followed by what stands behind it.
  induction cs with
  | nil => cases hc
  | cons d rest ih =>
    rcases List.mem_cons.mp hc with rfl | hrest
    · rw [isSpare, Bool.or_eq_false_iff] at hforeign
      exact ⟨fun _ _ _ => by simp [fraction?, hforeign],
        fun hpoint _ _ => by simp [whole?, hforeign, hpoint]⟩
    · obtain ⟨hfraction, hwhole⟩ := ih hrest
      have hrounded := rounded_foreign hrest hforeign negative
      exact ⟨fun _ _ _ => by simp only [fraction?, hrounded, hfraction, ite_self],
        fun hpoint _ _ => by simp only [whole?, hfraction, hwhole hpoint, ite_self]⟩

/-- What a numeral without an exponent may not hold is not read as one. -/
theorem ofPlain_marked {cs : List Char} {c : Char} (hc : c ∈ cs) (hmark : c = 'e' ∨ c = 'E') :
    ofPlain? cs = none := by
  have hforeign : isSpare c = false := by rcases hmark with rfl | rfl <;> rfl
  have hpoint : (c == '.') = false := by rcases hmark with rfl | rfl <;> rfl
  have hsign : c ≠ '-' ∧ c ≠ '+' := by rcases hmark with rfl | rfl <;> decide
  cases cs with
  | nil => cases hc
  | cons d rest =>
    have hrest (h : d ≠ c) : c ∈ rest := (List.mem_cons.mp hc).resolve_left h.symm
    unfold ofPlain?
    dsimp only
    split
    next h =>
      obtain rfl := eq_of_beq h
      exact (digits_foreign (hrest hsign.1.symm) hforeign _).2 hpoint _ _
    next =>
      split
      next h =>
        obtain rfl := eq_of_beq h
        exact (digits_foreign (hrest hsign.2.symm) hforeign _).2 hpoint _ _
      next => exact (digits_foreign hc hforeign _).2 hpoint _ _

theorem splitExponent_append {base rest : List Char} {mark : Char}
    (hbase : ∀ c ∈ base, c ≠ 'e' ∧ c ≠ 'E') (hmark : mark = 'e' ∨ mark = 'E') :
    splitExponent (base ++ mark :: rest) = some (base, rest) := by
  induction base with
  | nil => rcases hmark with rfl | rfl <;> rfl
  | cons c base ih =>
    have hc := hbase c List.mem_cons_self
    rw [List.cons_append, splitExponent, ih fun d hd => hbase d (List.mem_cons_of_mem _ hd)]
    simp [hc]

theorem splitExponent_none {cs : List Char} (h : ∀ c ∈ cs, c ≠ 'e' ∧ c ≠ 'E') :
    splitExponent cs = none := by
  induction cs with
  | nil => rfl
  | cons c cs ih =>
    have hc := h c List.mem_cons_self
    rw [splitExponent, ih fun d hd => h d (List.mem_cons_of_mem _ hd)]
    simp [hc]

/-- An exponent is read as an unsigned number of 32 bits. -/
theorem exponent_digits {cs : List Char} (hne : cs ≠ []) (hcs : ∀ c ∈ cs, c.isDigit = true) :
    exponent? cs = if Digits.toNat cs < 2 ^ 32 then some (Digits.toNat cs) else none := by
  have hempty : cs.isEmpty = false := List.isEmpty_eq_false_iff.mpr hne
  rw [exponent?, Digits.bounded, hempty, if_neg Bool.false_ne_true,
    if_neg (Digits.head_ne_sign hne hcs).2, Digits.boundedFrom_digits hcs (by decide)]
  rfl

/-- A plus sign in front of it does not count. -/
theorem exponent_plus {cs : List Char} (hne : cs ≠ []) (hcs : ∀ c ∈ cs, c.isDigit = true) :
    exponent? ('+' :: cs)
      = if Digits.toNat cs < 2 ^ 32 then some (Digits.toNat cs) else none := by
  have hempty : cs.isEmpty = false := List.isEmpty_eq_false_iff.mpr hne
  rw [exponent?, Digits.bounded]
  simp only [List.isEmpty_cons, List.head?_cons, List.tail_cons, hempty, Bool.false_eq_true,
    if_true, if_false]
  exact Digits.boundedFrom_digits hcs (by decide)

/-! ## Moving the point -/

theorem map_value_ofParts (c : Int) (s : Nat) :
    (ofParts? c s).map value
      = if c.natAbs < 2 ^ 96 ∧ s ≤ 28 then some ((c : ℚ) / (10 : ℚ) ^ s) else none := by
  unfold ofParts?
  by_cases hc : c.natAbs < 2 ^ 96
  · by_cases hs : s ≤ 28 <;> simp [hc, hs, value]
  · simp [hc]

/-- The point is moved to the left as long as there are places. -/
theorem map_value_shiftDown (d : Decimal) (k : Nat) :
    (shiftDown? d k).map value
      = if d.scale + k ≤ 28 then some (d.value / (10 : ℚ) ^ k) else none := by
  have hmoved : (d.coefficient : ℚ) / (10 : ℚ) ^ (d.scale + k) = d.value / (10 : ℚ) ^ k := by
    rw [value, pow_add, div_mul_eq_div_div]
  unfold shiftDown?
  by_cases hk : k ≤ maxScale
  · rw [if_pos hk, map_value_ofParts, hmoved]
    simp [d.coefficient_lt]
  · have hlong : ¬d.scale + k ≤ 28 := fun h => hk ((Nat.le_add_left _ _).trans h)
    rw [if_neg hk, if_neg hlong, Option.map_none]

/-- The point is moved to the right as long as the coefficient has room. -/
theorem map_value_shiftUp (d : Decimal) (k : Nat) :
    (shiftUp? d k).map value
      = if k ≤ 28 ∧ d.coefficient.natAbs * 10 ^ (k - d.scale) < 2 ^ 96
        then some (d.value * (10 : ℚ) ^ k) else none := by
  unfold shiftUp?
  -- A shift within the scale moves the point only; one beyond multiplies the coefficient.
  by_cases hdown : k ≤ d.scale
  · have hmoved : (d.coefficient : ℚ) / (10 : ℚ) ^ (d.scale - k) = d.value * (10 : ℚ) ^ k := by
      rw [value, pow_sub₀ _ (by norm_num) hdown]
      field_simp
    have hk : k ≤ 28 := hdown.trans d.scale_le
    have hscale : d.scale - k ≤ 28 := (Nat.sub_le _ _).trans d.scale_le
    rw [if_pos hdown, map_value_ofParts, hmoved]
    simp [d.coefficient_lt, hk, hscale, Nat.sub_eq_zero_of_le hdown]
  · rw [if_neg hdown]
    by_cases hk : k ≤ maxScale
    · have hmoved : ((d.coefficient * 10 ^ (k - d.scale) : Int) : ℚ) / (10 : ℚ) ^ 0
          = d.value * (10 : ℚ) ^ k := by
        rw [value, pow_zero, div_one, Int.cast_mul, Int.cast_pow, Int.cast_ofNat,
          pow_sub₀ _ (by norm_num) (Nat.le_of_not_le hdown)]
        field_simp
      have hlength : (d.coefficient * 10 ^ (k - d.scale)).natAbs
          = d.coefficient.natAbs * 10 ^ (k - d.scale) := by
        rw [Int.natAbs_mul, Int.natAbs_pow]
        rfl
      rw [if_pos hk, map_value_ofParts, hmoved, hlength]
      simp [show k ≤ 28 from hk]
    · have hlong : ¬k ≤ 28 := hk
      rw [if_neg hk, if_neg (fun h => hlong h.1), Option.map_none]

end PriceOracle.Decimal
