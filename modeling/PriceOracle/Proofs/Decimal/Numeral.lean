import PriceOracle.Decimal.Numeral
import PriceOracle.Proofs.Text.Digits

/-!
# Written decimals read back

`Decimal.ofNumeral?` reads the written form of a decimal back to the same coefficient and the same
scale (`ofNumeral_text`): no digit is rounded away, and trailing zeros stay. Values are stored as
their written form, so that this is why a restart moves none of them.
-/

namespace PriceOracle.Decimal

variable (negative : Bool)

/-- Digits that still fit are all read. -/
theorem fraction_digits {digits : List Char} (hdigits : ∀ c ∈ digits, c.isDigit = true)
    {m s : Nat} (hscale : s + digits.length ≤ 28) (hfits : Digits.toNatFrom m digits < 2 ^ 96) :
    fraction? negative true m s digits
      = signed? negative (Digits.toNatFrom m digits) (s + digits.length) := by
  induction digits generalizing m s with
  | nil => rfl
  | cons c digits ih =>
    have hc := hdigits c (List.mem_cons_self ..)
    have hlen : (c :: digits).length = digits.length + 1 := List.length_cons
    have hroom : ¬28 ≤ s := by omega
    rw [Digits.toNatFrom_cons] at hfits ⊢
    have hnext : m * 10 + Digits.value c < 2 ^ 96 :=
      Nat.lt_of_le_of_lt (Digits.le_toNatFrom _ _) hfits
    have hrest := ih (fun d hd => hdigits d (List.mem_cons_of_mem _ hd))
      (m := m * 10 + Digits.value c) (s := s + 1) (by omega) hfits
    have hstep : fraction? negative true m s (c :: digits)
        = fraction? negative true (m * 10 + Digits.value c) (s + 1) digits := by
      simp only [fraction?, hc, hroom, hnext, if_true, if_false]
    rw [hstep, hrest, hlen, Nat.add_assoc, Nat.add_comm 1]

/-- Digits before the point that still fit are all read. -/
theorem whole_digits {digits : List Char} (hdigits : ∀ c ∈ digits, c.isDigit = true) {m : Nat}
    (hfits : Digits.toNatFrom m digits < 2 ^ 96) (rest : List Char) :
    whole? negative true m (digits ++ rest)
      = whole? negative true (Digits.toNatFrom m digits) rest := by
  induction digits generalizing m with
  | nil => rfl
  | cons c digits ih =>
    have hc := hdigits c (List.mem_cons_self ..)
    rw [Digits.toNatFrom_cons] at hfits ⊢
    have hnext : m * 10 + Digits.value c < 2 ^ 96 :=
      Nat.lt_of_le_of_lt (Digits.le_toNatFrom _ _) hfits
    have hrest := ih (fun d hd => hdigits d (List.mem_cons_of_mem _ hd)) hfits
    have hstep : whole? negative true m (c :: digits ++ rest)
        = whole? negative true (m * 10 + Digits.value c) (digits ++ rest) := by
      simp only [List.cons_append, whole?, hc, hnext, if_true]
    rw [hstep, hrest]

/-- The first digit may be read before any other. -/
theorem whole_first {c : Char} (hc : c.isDigit = true) (rest : List Char) (m : Nat) :
    whole? negative false m (c :: rest) = whole? negative true m (c :: rest) := by
  simp only [whole?, hc, if_true]

/-- Digits with a point before the last of them. -/
theorem whole_point {whole fraction : List Char} (hne : whole ≠ [])
    (hwhole : ∀ c ∈ whole, c.isDigit = true) (hfraction : ∀ c ∈ fraction, c.isDigit = true)
    (hscale : fraction.length ≤ 28) (hfits : Digits.toNat (whole ++ fraction) < 2 ^ 96) :
    whole? negative false 0 (whole ++ if fraction.isEmpty then [] else '.' :: fraction)
      = signed? negative (Digits.toNat (whole ++ fraction)) fraction.length := by
  rw [Digits.toNat, Digits.toNatFrom_append] at hfits ⊢
  have hfirst : Digits.toNatFrom 0 whole < 2 ^ 96 :=
    Nat.lt_of_le_of_lt (Digits.le_toNatFrom _ _) hfits
  obtain ⟨c, cs, rfl⟩ := List.exists_cons_of_ne_nil hne
  have hc := hwhole c (List.mem_cons_self ..)
  have hstart := whole_digits negative hwhole hfirst
    (if fraction.isEmpty then [] else '.' :: fraction)
  rw [List.cons_append] at hstart ⊢
  rw [whole_first negative hc, hstart]
  cases fraction with
  | nil => rfl
  | cons d ds =>
    have hread := fraction_digits negative hfraction (m := Digits.toNatFrom 0 (c :: cs))
      (s := 0) (by omega) hfits
    rw [Nat.zero_add] at hread
    rw [← hread]
    rfl

/-- The parts of a decimal make it up again. -/
theorem signed_parts (d : Decimal) :
    signed? d.isNegative d.coefficient.natAbs d.scale = some d := by
  have hback : (if d.isNegative then -(d.coefficient.natAbs : Int) else d.coefficient.natAbs)
      = d.coefficient := by
    unfold isNegative
    by_cases h : d.coefficient < 0
    · rw [if_pos (decide_eq_true h)]
      omega
    · rw [if_neg (by simpa using h)]
      omega
  rw [signed?, hback, ofParts?, dif_pos d.coefficient_lt, dif_pos d.scale_le]

/-- The digits of a decimal: those before the point, and those after it. -/
theorem chars_split (d : Decimal) : ∃ whole fraction : List Char,
    d.chars = (if d.isNegative then ['-'] else []) ++
      (whole ++ if fraction.isEmpty then [] else '.' :: fraction) ∧
    whole ≠ [] ∧ (∀ c ∈ whole, c.isDigit = true) ∧ (∀ c ∈ fraction, c.isDigit = true) ∧
    fraction.length = d.scale ∧ Digits.toNat (whole ++ fraction) = d.coefficient.natAbs := by
  let ds := Digits.padded (d.scale + 1) d.coefficient.natAbs
  have hlen : d.scale + 1 ≤ ds.length := Digits.le_length_padded _ _
  have hdigit : ∀ c ∈ ds, c.isDigit = true := fun c hc => Digits.isDigit_of_mem_padded hc
  refine ⟨ds.take (ds.length - d.scale), ds.drop (ds.length - d.scale), ?_, ?_, ?_, ?_, ?_, ?_⟩
  · simp only [chars, List.append_assoc]
    rfl
  · intro h
    have hzero := congrArg List.length h
    rw [List.length_take, List.length_nil] at hzero
    omega
  · exact fun c hc => hdigit c (List.mem_of_mem_take hc)
  · exact fun c hc => hdigit c (List.mem_of_mem_drop hc)
  · rw [List.length_drop]
    omega
  · rw [List.take_append_drop]
    exact Digits.toNat_padded _ _

/-- Reading undoes writing. -/
theorem ofPlain_chars (d : Decimal) : ofPlain? d.chars = some d := by
  obtain ⟨whole, fraction, hchars, hne, hwhole, hfraction, hscale, hvalue⟩ := chars_split d
  have hread := whole_point d.isNegative hne hwhole hfraction
    (hscale ▸ d.scale_le) (hvalue ▸ d.coefficient_lt)
  rw [hscale, hvalue, signed_parts] at hread
  rw [hchars]
  cases hsign : d.isNegative with
  | true =>
    rw [hsign] at hread
    exact hread
  | false =>
    rw [hsign] at hread
    obtain ⟨c, cs, rfl⟩ := List.exists_cons_of_ne_nil hne
    have hc := hwhole c (List.mem_cons_self ..)
    have hminus : (c == '-') = false := by
      rw [beq_eq_false_iff_ne]
      rintro rfl
      cases hc
    have hplus : (c == '+') = false := by
      rw [beq_eq_false_iff_ne]
      rintro rfl
      cases hc
    simpa [ofPlain?, hminus, hplus] using hread

/-- The written form of a decimal is a numeral for it. -/
theorem ofNumeral_text (d : Decimal) : ofNumeral? d.text.toList = some d := by
  rw [text, String.toList_ofList, ofNumeral?, ofPlain_chars]
  rfl

end PriceOracle.Decimal
