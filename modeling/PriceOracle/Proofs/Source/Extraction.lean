import PriceOracle.Source.Path
import PriceOracle.Proofs.Binary64.Range
import PriceOracle.Proofs.Source.Numeral

/-!
# Extraction of numerals

What `Json.extract` answers for a leaf that is a string with a well-formed numeral in it
(`extract_numeral`):

* If the numeral fits a decimal, its rounded value. This is the number that was written exactly as
  nothing but zeros was rounded away, always so for at most 28 places and 96 bits of digits.
* Otherwise, that it overflows, as long as there is a double near it; beyond every double, that it
  is no number.

The last resort, reading the numeral as a double, decides by its size alone, since every well-formed
numeral is read (`Numeral.nearest_double`).
-/

namespace PriceOracle

namespace Numeral

variable {n : Numeral}

/-! ## The nearest double -/

/-- A text that goes on with something else than a digit. -/
def Stops (cs : List Char) : Prop := cs.takeWhile Char.isDigit = []

theorem Stops.dropWhile {cs : List Char} (h : Stops cs) : cs.dropWhile Char.isDigit = cs := by
  have hall := List.takeWhile_append_dropWhile (p := Char.isDigit) (l := cs)
  rwa [show cs.takeWhile Char.isDigit = [] from h, List.nil_append] at hall

theorem takeWhile_digits {ds cs : List Char} (hds : ∀ c ∈ ds, c.isDigit = true) (h : Stops cs) :
    (ds ++ cs).takeWhile Char.isDigit = ds := by
  rw [List.takeWhile_append_of_pos hds, show cs.takeWhile Char.isDigit = [] from h,
    List.append_nil]

theorem dropWhile_digits {ds cs : List Char} (hds : ∀ c ∈ ds, c.isDigit = true) (h : Stops cs) :
    (ds ++ cs).dropWhile Char.isDigit = cs := by
  rw [List.dropWhile_append_of_pos hds, h.dropWhile]

/-- The exponent of a numeral is that of its double. -/
theorem numeralExponent_digits (x : Exponent) :
    Binary64.numeralExponent? (x.sign.chars ++ x.digits) = some x.power := by
  have hread := Digits.toNat_eq_some x.nonempty x.isDigit
  have hhead := Digits.head_ne_sign x.nonempty x.isDigit
  unfold Exponent.power Binary64.numeralExponent?
  cases x.sign <;> simp [Sign.chars, Sign.apply, hread, hhead]

theorem stops_exponent (n : Numeral) : Stops (n.exponent.elim [] Exponent.chars) := by
  cases n.exponent with
  | none => rfl
  | some x =>
    have hmark : x.mark.isDigit = false := by rcases x.isMark with h | h <;> rw [h] <;> rfl
    exact List.takeWhile_cons_of_neg (by simp [hmark])

/-- A sign is only found where there is one. -/
theorem sign_split (n : Numeral) : (n.chars.head? = some '-' ↔ n.sign = .minus) ∧
    (if n.chars.head? = some '-' ∨ n.chars.head? = some '+' then n.chars.tail else n.chars)
      = Decimal.pointed n.whole n.fraction ++ n.exponent.elim [] Exponent.chars := by
  obtain ⟨c, cs, hcs, hminus, hplus⟩ := Decimal.pointed_head n.nonempty n.whole_isDigit
  rw [beq_eq_false_iff_ne] at hminus hplus
  unfold chars plain
  cases n.sign with
  | none => simp [Sign.chars, hcs, hminus, hplus]
  | plus => simp [Sign.chars]
  | minus => simp [Sign.chars]

/-- A numeral has the nearest double of its digits and its power of ten. -/
theorem nearest_double (n : Numeral) : Binary64.ofNumeral? n.chars
    = Binary64.ofDecimal? (n.sign = .minus) n.digits (n.power - n.places) := by
  obtain ⟨hsign, hbody⟩ := sign_split n
  simp only [hsign] at hbody
  have hstops := stops_exponent n
  have hexponent :
      Binary64.trailingExponent? (n.exponent.elim [] Exponent.chars) = some n.power := by
    unfold power
    cases n.exponent with
    | none => rfl
    | some x => simp [Exponent.chars, Binary64.trailingExponent?, x.isMark, numeralExponent_digits]
  have hnonempty := List.isEmpty_eq_false_iff.mpr n.nonempty
  unfold Binary64.ofNumeral? digits places
  -- The scan for a fraction differs with the point, all else is shared.
  cases hf : n.fraction with
  | none =>
    rw [hf, Option.getD_none, List.append_nil] at hnonempty
    have hpoint : (n.exponent.elim [] Exponent.chars).head? ≠ some '.' := by
      cases n.exponent with
      | none => simp
      | some x => rcases x.isMark with h | h <;> simp [Exponent.chars, h]
    rw [hf, show Decimal.pointed n.whole none = n.whole from List.append_nil _] at hbody
    simp only [hsign, hbody, takeWhile_digits n.whole_isDigit hstops,
      dropWhile_digits n.whole_isDigit hstops, hpoint, if_false, List.append_nil, hnonempty,
      Bool.false_eq_true, hexponent, Option.bind_some, Option.getD_none]
  | some fraction =>
    have hfraction := n.fraction_isDigit
    rw [hf, Option.getD_some] at hfraction hnonempty
    have hpoint : Stops ('.' :: (fraction ++ n.exponent.elim [] Exponent.chars)) := rfl
    have hpointed : Decimal.pointed n.whole (some fraction) ++ n.exponent.elim [] Exponent.chars
        = n.whole ++ '.' :: (fraction ++ n.exponent.elim [] Exponent.chars) :=
      List.append_assoc _ _ _
    rw [hf, hpointed] at hbody
    simp only [hsign, hbody, takeWhile_digits n.whole_isDigit hpoint,
      dropWhile_digits n.whole_isDigit hpoint, List.head?_cons, if_true, List.tail_cons,
      takeWhile_digits hfraction hstops, dropWhile_digits hfraction hstops, hnonempty,
      Bool.false_eq_true, if_false, hexponent, Option.bind_some, Option.getD_some]

theorem abs_value_eq (n : Numeral) :
    |n.value| = (n.digits : ℚ) * (10 : ℚ) ^ (n.power - n.places) := by
  have habs (x : ℚ) : |n.sign.apply x| = |x| := by
    unfold Sign.apply
    split
    · exact abs_neg x
    · rfl
  have hbase : 0 ≤ n.base := by unfold base; positivity
  rw [value, abs_mul, habs, abs_of_nonneg hbase, abs_of_pos (by positivity), base,
    zpow_sub₀ (by norm_num), zpow_natCast]
  ring

/-- A numeral has a nearest double as long as it is below the bound. -/
theorem double_eq_none_iff (n : Numeral) :
    Binary64.ofNumeral? n.chars = none ↔ (Binary64.overflowBound : ℚ) ≤ |n.value| := by
  rw [nearest_double, Binary64.ofDecimal_eq_none_iff, abs_value_eq]

/-! ## Digits that are left out -/

theorem sign_apply_inj {sign : Sign} {x y : ℚ} : sign.apply x = sign.apply y ↔ x = y := by
  unfold Sign.apply
  split
  · exact neg_inj
  · exact Iff.rfl

/-- Nothing is altered exactly as nothing but zeros is left out. -/
theorem rounded_eq_value_iff : n.rounded = n.value ↔ 10 ^ (n.places - n.keptPlaces) ∣ n.digits := by
  have hle : n.keptPlaces ≤ n.places := keptPlaces_le.trans (min_le_right _ _)
  have hpow : (10 : ℚ) ^ n.places
      = (10 : ℚ) ^ (n.places - n.keptPlaces) * (10 : ℚ) ^ n.keptPlaces := by
    rw [← pow_add, Nat.sub_add_cancel hle]
  have hexact : n.rounded = n.value ↔ n.kept * 10 ^ (n.places - n.keptPlaces) = n.digits := by
    rw [rounded, value, mul_left_inj' (by positivity), sign_apply_inj, base, hpow,
      div_eq_div_iff (by positivity) (by positivity), ← mul_assoc, mul_left_inj' (by positivity)]
    exact_mod_cast Iff.rfl
  rw [hexact]
  constructor
  · rintro h
    exact ⟨n.kept, by rw [← h, Nat.mul_comm]⟩
  · rintro ⟨m, hm⟩
    have hkept : n.kept = m := by
      rw [kept_eq, hm, Nat.mul_comm]
      exact Decimal.scaledDown_mul _ _
    rw [hkept, hm, Nat.mul_comm]

/-! ## Extraction -/

/-- What a numeral should be answered with: the number it writes, or that it is too much. -/
def Answers (n : Numeral) (outcome : Except SourceError Decimal) : Prop :=
  (∃ d, outcome = .ok d ∧ d.value = n.value) ∨ ∃ text, outcome = .error (.overflow text)

/-- A numeral that does not fit overflows if it has a nearest double. -/
theorem decimalOf_chars (n : Numeral) :
    (n.Fits → ∃ d, Json.decimalOf n.chars = .ok d ∧ d.value = n.rounded) ∧
    (¬n.Fits → Json.decimalOf n.chars = .error (if |n.value| < Binary64.overflowBound
      then .overflow (String.ofList n.chars)
      else .notNumeric s!"'{String.ofList n.chars}'")) := by
  have hread := n.read
  constructor
  · intro hfits
    rw [if_pos hfits, Option.map_eq_some_iff] at hread
    obtain ⟨d, hd, hvalue⟩ := hread
    refine ⟨d, ?_, hvalue⟩
    rw [Json.decimalOf, hd]
  · intro hlong
    rw [if_neg hlong, Option.map_eq_none_iff] at hread
    rw [Json.decimalOf, hread]
    by_cases hbound : |n.value| < Binary64.overflowBound
    · have hdouble : (Binary64.ofNumeral? n.chars).isSome = true := by
        rw [Option.isSome_iff_ne_none, ne_eq, double_eq_none_iff, not_le]
        exact hbound
      rw [if_pos hbound, if_pos hdouble]
    · have hdouble : ¬(Binary64.ofNumeral? n.chars).isSome = true := by
        rw [Option.isSome_iff_ne_none, ne_eq, double_eq_none_iff, not_not]
        exact not_lt.mp hbound
      rw [if_neg hbound, if_neg hdouble]

end Numeral

variable {document : Json} {path s : String} {n : Numeral}

/-- What is extracted from a string that holds a numeral. -/
theorem extract_numeral (hleaf : document.navigate path = .ok (.str s))
    (htrim : Text.trim s.toList = n.chars) :
    (n.Fits → ∃ d, document.extract path = .ok d ∧ d.value = n.rounded) ∧
    (¬n.Fits → document.extract path = .error (if |n.value| < Binary64.overflowBound
      then .overflow (String.ofList n.chars)
      else .notNumeric s!"'{String.ofList n.chars}'")) ∧
    (n.Answers (document.extract path) ↔
      if n.Fits then 10 ^ (n.places - n.keptPlaces) ∣ n.digits
      else |n.value| < Binary64.overflowBound) := by
  have hextract : document.extract path = Json.decimalOf n.chars := by
    show (document.navigate path).bind Json.numeric = _
    rw [hleaf, ← htrim]
    rfl
  obtain ⟨hfits, hlong⟩ := n.decimalOf_chars
  rw [hextract]
  refine ⟨hfits, hlong, ?_⟩
  -- What fits is answered rounded, so truly iff nothing was rounded away.
  by_cases h : n.Fits
  · obtain ⟨d, hd, hvalue⟩ := hfits h
    rw [if_pos h, ← Numeral.rounded_eq_value_iff, hd, ← hvalue]
    constructor
    · rintro (⟨d', hd', hvalue'⟩ | ⟨text, htext⟩)
      · cases hd'
        exact hvalue'
      · cases htext
    · exact fun heq => .inl ⟨d, rfl, heq⟩
  · rw [if_neg h, hlong h]
    by_cases hbound : |n.value| < Binary64.overflowBound
    · rw [if_pos hbound]
      exact iff_of_true (.inr ⟨_, rfl⟩) hbound
    · rw [if_neg hbound]
      refine iff_of_false ?_ hbound
      rintro (⟨d, hd, -⟩ | ⟨text, htext⟩)
      · cases hd
      · cases htext

/-- A document of one price. -/
def quotation (price : Numeral) : Json := .obj [("price", .str (String.ofList price.chars))]

/-- The numeral `1.5e3`. -/
def thousands : Numeral where
  sign := .none
  whole := ['1']
  fraction := some ['5']
  exponent := some ⟨'e', .none, ['3'], by decide, by decide, List.all_eq_true.mp rfl⟩
  nonempty := by decide
  whole_isDigit := List.all_eq_true.mp rfl
  fraction_isDigit := List.all_eq_true.mp rfl

/-- `1.5e3` fits, and is answered exactly. -/
theorem extract_numeral_thousands :
    (quotation thousands).navigate "price" = .ok (.str (String.ofList thousands.chars)) ∧
    Text.trim (String.ofList thousands.chars).toList = thousands.chars ∧
    (∃ d, (quotation thousands).extract "price" = .ok d ∧ d.value = thousands.rounded) ∧
    thousands.Answers ((quotation thousands).extract "price") := by
  have hfits : thousands.Fits := by
    rw [Numeral.Fits, Numeral.kept_eq, Numeral.keptPlaces_eq]
    decide +kernel
  have hexact : 10 ^ (thousands.places - thousands.keptPlaces) ∣ thousands.digits := by
    rw [Numeral.keptPlaces_eq]
    decide +kernel
  obtain ⟨hrounded, -, hanswers⟩ :=
    @extract_numeral (quotation thousands) "price" _ thousands rfl rfl
  exact ⟨rfl, rfl, hrounded hfits, hanswers.mpr (by rwa [if_pos hfits])⟩

/-- The numeral `0.00000000000000000000000000005`, of one place too many. -/
def tinyPrice : Numeral where
  sign := .none
  whole := ['0']
  fraction := some "00000000000000000000000000005".toList
  exponent := none
  nonempty := by decide
  whole_isDigit := List.all_eq_true.mp rfl
  fraction_isDigit := List.all_eq_true.mp rfl

/-- The numeral `1e400`, beyond every double. -/
def hugePrice : Numeral where
  sign := .none
  whole := ['1']
  fraction := none
  exponent := some ⟨'e', .none, ['4', '0', '0'], by decide, by decide, List.all_eq_true.mp rfl⟩
  nonempty := by decide
  whole_isDigit := List.all_eq_true.mp rfl
  fraction_isDigit := List.all_eq_true.mp rfl

/-- A place too many doubles a price without a word, and a price beyond every double is none. -/
theorem prices_altered :
    (quotation tinyPrice).extract "price" = .ok ⟨1, 28, by decide, by decide⟩ ∧
      ¬tinyPrice.Answers ((quotation tinyPrice).extract "price") ∧
    (quotation hugePrice).extract "price" = .error (.notNumeric "'1e400'") ∧
      ¬hugePrice.Answers ((quotation hugePrice).extract "price") := by
  have htiny : (quotation tinyPrice).extract "price" = .ok ⟨1, 28, by decide, by decide⟩ := rfl
  have hhuge : (quotation hugePrice).extract "price" = .error (.notNumeric "'1e400'") := rfl
  refine ⟨htiny, ?_, hhuge, ?_⟩
  · have hvalue : tinyPrice.value = 5 / (10 : ℚ) ^ 29 * (10 : ℚ) ^ (0 : ℤ) := rfl
    rw [htiny]
    rintro (⟨d, hd, hd'⟩ | ⟨text, htext⟩)
    · cases hd
      rw [hvalue, Decimal.value] at hd'
      norm_num at hd'
    · cases htext
  · rw [hhuge]
    rintro (⟨d, hd, -⟩ | ⟨text, htext⟩)
    · cases hd
    · cases htext

end PriceOracle
