import PriceOracle.Power
import PriceOracle.Text.Digits

/-!
# Reading back decimal digits

`Digits.toNat` reads back what `Digits.ofNat` writes, also behind the zeros of `Digits.padded`. A
number is written without leading zeros, so that each number has one written form, whose length
tells its size.
-/

namespace PriceOracle.Digits

theorem toNatFrom_eq_ofDigitChars (n : Nat) (cs : List Char) :
    toNatFrom n cs = Nat.ofDigitChars 10 cs n := by
  induction cs generalizing n with
  | nil => simp
  | cons c cs ih =>
    rw [toNatFrom_cons, Nat.ofDigitChars_cons, ih, Nat.mul_comm]
    rfl

/-- Reading undoes writing. -/
theorem toNat_ofNat (n : Nat) : toNat (ofNat n) = n := by
  rw [toNat, toNatFrom_eq_ofDigitChars]
  exact Nat.ofDigitChars_ten_toDigits

/-- Zeros on the left do not count. -/
theorem toNat_padded (width n : Nat) : toNat (padded width n) = n := by
  have hzeros : toNatFrom 0 (List.replicate (width - (ofNat n).length) '0') = 0 := by
    rw [toNatFrom_eq_ofDigitChars, Nat.ofDigitChars_replicate_zero, Nat.mul_zero]
  show toNatFrom 0 (List.replicate _ '0' ++ ofNat n) = n
  rw [toNatFrom_append, hzeros]
  exact toNat_ofNat n

theorem isDigit_of_mem_ofNat {n : Nat} {c : Char} (h : c ∈ ofNat n) : c.isDigit = true :=
  Nat.isDigit_of_mem_toDigits (by decide) (by decide) h

theorem isDigit_of_mem_padded {width n : Nat} {c : Char} (h : c ∈ padded width n) :
    c.isDigit = true := by
  rcases List.mem_append.mp h with h | h
  · rw [List.eq_of_mem_replicate h]
    decide
  · exact isDigit_of_mem_ofNat h

theorem ofNat_ne_nil (n : Nat) : ofNat n ≠ [] := Nat.toDigits_ne_nil

theorem le_length_padded (width n : Nat) : width ≤ (padded width n).length := by
  show width ≤ (List.replicate (width - (ofNat n).length) '0' ++ ofNat n).length
  rw [List.length_append, List.length_replicate]
  omega

/-- Only zero starts with the digit zero. -/
theorem head_ofNat_ne_zero {n : Nat} (h : 0 < n) : (ofNat n).head? ≠ some '0' := by
  induction n using Nat.strongRecOn with
  | _ n ih =>
    unfold ofNat
    rw [Nat.toDigits_eq_if (by decide)]
    by_cases hn : n < 10
    · rw [if_pos hn]
      have hdigit : ∀ d < 10, 0 < d → [Nat.digitChar d].head? ≠ some '0' := by decide
      exact hdigit n hn h
    · rw [if_neg hn]
      have hrest := ih (n / 10) (by omega) (by omega)
      obtain ⟨c, cs, hcs⟩ := List.exists_cons_of_ne_nil (ofNat_ne_nil (n / 10))
      show (ofNat (n / 10) ++ [Nat.digitChar (n % 10)]).head? ≠ some '0'
      rw [hcs] at hrest ⊢
      exact hrest

/-- A number is at least its leading digits. -/
theorem le_toNatFrom (n : Nat) (cs : List Char) : n ≤ toNatFrom n cs := by
  induction cs generalizing n with
  | nil => simp
  | cons c cs ih =>
    rw [toNatFrom_cons]
    calc n ≤ n * 10 + value c := by omega
      _ ≤ toNatFrom (n * 10 + value c) cs := ih _

/-- A digit is below ten. -/
theorem value_lt {c : Char} (h : c.isDigit = true) : value c < 10 := by
  simp only [Char.isDigit, Bool.and_eq_true, decide_eq_true_eq] at h
  have hle : c.toNat ≤ '9'.toNat := h.2
  have hnine : '9'.toNat = 57 := rfl
  unfold value
  omega

/-- Digits that are read onto a number shift it to the left. -/
theorem toNatFrom_eq (n : Nat) (cs : List Char) :
    toNatFrom n cs = n * 10 ^ cs.length + toNat cs := by
  induction cs generalizing n with
  | nil => simp [toNat]
  | cons c cs ih =>
    rw [toNat, toNatFrom_cons, toNatFrom_cons, ih, ih (0 * 10 + value c), List.length_cons,
      Nat.pow_succ', Nat.zero_mul, Nat.zero_add, Nat.add_mul, Nat.mul_assoc, Nat.add_assoc]

theorem toNat_cons (c : Char) (cs : List Char) :
    toNat (c :: cs) = value c * 10 ^ cs.length + toNat cs := by
  rw [toNat, toNatFrom_cons, toNatFrom_eq, Nat.zero_mul, Nat.zero_add]

/-- A run of digits is below the power of ten of its length. -/
theorem toNat_lt {cs : List Char} (h : ∀ c ∈ cs, c.isDigit = true) :
    toNat cs < 10 ^ cs.length := by
  induction cs with
  | nil => decide
  | cons c cs ih =>
    have hc := value_lt (h c List.mem_cons_self)
    have hcs := ih fun d hd => h d (List.mem_cons_of_mem _ hd)
    have hle : value c * 10 ^ cs.length ≤ 9 * 10 ^ cs.length := Nat.mul_le_mul_right _ (by omega)
    rw [toNat_cons, List.length_cons, Nat.pow_succ]
    omega

/-- A number is below the power of ten of as many digits as it is written with. -/
theorem lt_pow_length_ofNat (n : Nat) : n < 10 ^ (ofNat n).length := by
  have hlt := toNat_lt fun c (hc : c ∈ ofNat n) => isDigit_of_mem_ofNat hc
  rwa [toNat_ofNat] at hlt

/-- A positive number is at least the power of ten of its first digit. -/
theorem pow_length_ofNat_le {n : Nat} (h : 0 < n) : 10 ^ ((ofNat n).length - 1) ≤ n := by
  have hread := toNat_ofNat n
  have hfirst := head_ofNat_ne_zero h
  have hdigit := fun c (hc : c ∈ ofNat n) => isDigit_of_mem_ofNat hc
  obtain ⟨c, cs, hcs⟩ := List.exists_cons_of_ne_nil (ofNat_ne_nil n)
  rw [hcs] at hread hfirst hdigit ⊢
  rw [toNat_cons] at hread
  have hone : 1 ≤ value c := by
    have hc := hdigit c List.mem_cons_self
    simp only [Char.isDigit, Bool.and_eq_true, decide_eq_true_eq] at hc
    have hle : '0'.toNat ≤ c.toNat := hc.1
    have hne : c.toNat ≠ '0'.toNat := fun heq => hfirst (by simp [Char.toNat_inj.mp heq])
    have hzero : '0'.toNat = 48 := rfl
    unfold value
    omega
  calc 10 ^ ((c :: cs).length - 1) = 1 * 10 ^ cs.length := by
        rw [List.length_cons, Nat.add_sub_cancel, Nat.one_mul]
    _ ≤ value c * 10 ^ cs.length := Nat.mul_le_mul_right _ hone
    _ ≤ n := by omega

/-- Digits do not start with a sign. -/
theorem head_ne_sign {cs : List Char} (hne : cs ≠ []) (hcs : ∀ c ∈ cs, c.isDigit = true) :
    cs.head? ≠ some '-' ∧ cs.head? ≠ some '+' := by
  cases cs with
  | nil => exact absurd rfl hne
  | cons c cs =>
    have hc := hcs c List.mem_cons_self
    constructor <;>
    · intro h
      rw [List.head?_cons, Option.some_inj] at h
      subst h
      cases hc

/-- A nonempty run of digits is read. -/
theorem toNat_eq_some {cs : List Char} (hne : cs ≠ []) (hcs : ∀ c ∈ cs, c.isDigit = true) :
    toNat? cs = some (toNat cs) := by
  rw [toNat?, List.isEmpty_eq_false_iff.mpr hne, List.all_eq_true.mpr hcs]
  rfl

/-- Digits are read as long as they are below the bound. -/
theorem boundedFrom_digits {bound m : Nat} {cs : List Char} (hcs : ∀ c ∈ cs, c.isDigit = true)
    (hm : m < bound) :
    (boundedFrom bound m cs).toOption
      = if toNatFrom m cs < bound then some (toNatFrom m cs) else none := by
  induction cs generalizing m with
  | nil => simp [boundedFrom, hm, Except.toOption]
  | cons c cs ih =>
    rw [boundedFrom, hcs c List.mem_cons_self, toNatFrom_cons]
    by_cases hnext : m * 10 + value c < bound
    · simpa [hnext] using ih (fun d hd => hcs d (List.mem_cons_of_mem _ hd)) hnext
    · have hlong : ¬toNatFrom (m * 10 + value c) cs < bound :=
        fun h => hnext (Nat.lt_of_le_of_lt (le_toNatFrom _ _) h)
      simp [hnext, hlong, Except.toOption]

/-- What is read one by one is digits. -/
theorem boundedFrom_eq_some_iff {bound m n : Nat} {cs : List Char} (hm : m < bound) :
    (boundedFrom bound m cs).toOption = some n ↔
      (∀ c ∈ cs, c.isDigit = true) ∧ toNatFrom m cs = n ∧ n < bound := by
  by_cases hcs : ∀ c ∈ cs, c.isDigit = true
  · rw [boundedFrom_digits hcs hm]
    by_cases hlt : toNatFrom m cs < bound
    · rw [if_pos hlt, Option.some_inj]
      exact ⟨fun h => ⟨hcs, h, h ▸ hlt⟩, fun h => h.2.1⟩
    · rw [if_neg hlt]
      exact ⟨nofun, fun h => absurd (h.2.1 ▸ h.2.2) hlt⟩
  · refine ⟨fun h => absurd ?_ hcs, fun h => absurd h.1 hcs⟩
    clear hcs hm
    induction cs generalizing m with
    | nil => exact fun c hc => absurd hc List.not_mem_nil
    | cons c cs ih =>
      rw [boundedFrom] at h
      by_cases hc : c.isDigit = true
      · by_cases hnext : m * 10 + value c < bound
        · simp only [hc, Bool.not_true, Bool.false_eq_true, if_false, if_pos hnext] at h
          exact List.forall_mem_cons.mpr ⟨hc, ih h⟩
        · simp [hc, hnext, Except.toOption] at h
      · simp [hc, Except.toOption] at h

/-- An unsigned integer below the bound is read from its digits, after an optional plus sign. -/
theorem bounded_eq_some_iff {bound n : Nat} {cs : List Char} (hbound : 0 < bound) :
    (bounded bound cs).toOption = some n ↔ ∃ digits : List Char, digits ≠ [] ∧
      (∀ c ∈ digits, c.isDigit = true) ∧ (cs = digits ∨ cs = '+' :: digits) ∧
      toNat digits = n ∧ n < bound := by
  match cs with
  | [] =>
    refine ⟨nofun, ?_⟩
    rintro ⟨digits, hne, -, h | h, -⟩
    · exact absurd h.symm hne
    · cases h
  | c :: cs =>
    by_cases hc : c = '+'
    · subst hc
      have hsigned : (bounded bound ('+' :: cs)).toOption
          = if cs = [] then none else (boundedFrom bound 0 cs).toOption := by
        cases cs <;> rfl
      constructor
      · intro h
        rw [hsigned, Option.ite_none_left_eq_some, boundedFrom_eq_some_iff hbound] at h
        exact ⟨cs, h.1, h.2.1, .inr rfl, h.2.2⟩
      · rintro ⟨digits, hne, hdigits, rfl | h, hn⟩
        -- A plus sign is no digit.
        · exact absurd (hdigits _ List.mem_cons_self) (by decide)
        · cases h
          rw [hsigned, if_neg hne, boundedFrom_eq_some_iff hbound]
          exact ⟨hdigits, hn⟩
    · have hplain : bounded bound (c :: cs) = boundedFrom bound 0 (c :: cs) := by
        simp [bounded, hc]
      rw [hplain, boundedFrom_eq_some_iff hbound]
      constructor
      · rintro ⟨hcs, hn, hlt⟩
        exact ⟨c :: cs, List.cons_ne_nil _ _, hcs, .inl rfl, hn, hlt⟩
      · rintro ⟨digits, -, hcs, rfl | h, hn, hlt⟩
        · exact ⟨hcs, hn, hlt⟩
        · exact absurd (List.cons.inj h).1 hc

end PriceOracle.Digits
