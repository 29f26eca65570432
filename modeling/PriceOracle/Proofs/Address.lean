import Mathlib.Data.List.Basic
import PriceOracle.Address

/-!
# Which texts are addresses

`Hex.IsDigit` and `Address.Written` say what the digits and the texts of addresses are, without
reading them. `Address.ofText_isSome_iff` says that these and no others are read. What a schema
accepts can then be stated in these terms, and need not be stated by the reader that it calls.
-/

namespace PriceOracle.Hex

/-- A hexadecimal digit of either case. -/
def IsDigit (c : Char) : Prop := ('0' ≤ c ∧ c ≤ '9') ∨ ('a' ≤ c ∧ c ≤ 'f') ∨ ('A' ≤ c ∧ c ≤ 'F')

theorem isDigit_iff {c : Char} : c.isDigit = true ↔ '0' ≤ c ∧ c ≤ '9' := by
  rw [Char.isDigit, Bool.and_eq_true, decide_eq_true_iff, decide_eq_true_iff]
  exact Iff.rfl

theorem value_isSome_iff {c : Char} : (∃ n, value? c = some n) ↔ IsDigit c := by
  unfold value? IsDigit
  rw [← isDigit_iff]
  split_ifs <;> simp_all

/-- What is read are pairs of digits, one for each byte. -/
theorem decode_isSome_iff {cs : List Char} {n : Nat} :
    (∃ bytes, decode? cs = some bytes ∧ bytes.length = n) ↔
      cs.length = 2 * n ∧ ∀ c ∈ cs, IsDigit c := by
  induction cs using decode?.induct generalizing n with
  | case1 =>
    have hzero : 0 = n ↔ 0 = 2 * n := by omega
    simp [decode?, hzero]
  | case2 c =>
    have hodd : 1 ≠ 2 * n := by omega
    simp [decode?, hodd]
  | case3 a b rest ih =>
    rw [List.forall_mem_cons, List.forall_mem_cons, ← value_isSome_iff, ← value_isSome_iff]
    constructor
    · rintro ⟨bytes, hread, hlength⟩
      simp only [decode?, Option.bind_eq_bind, Option.pure_def, Option.bind_eq_some_iff,
        Option.some_inj] at hread
      obtain ⟨high, ha, low, hb, more, hmore, rfl⟩ := hread
      obtain ⟨hrest, hdigits⟩ := ih.mp ⟨more, hmore, rfl⟩
      rw [List.length_cons] at hlength
      exact ⟨by rw [List.length_cons, List.length_cons]; omega, ⟨high, ha⟩, ⟨low, hb⟩, hdigits⟩
    · rintro ⟨hlength, ⟨high, ha⟩, ⟨low, hb⟩, hdigits⟩
      rw [List.length_cons, List.length_cons] at hlength
      obtain ⟨more, hmore, hcount⟩ := (ih (n := n - 1)).mpr ⟨by omega, hdigits⟩
      refine ⟨_, by simp only [decode?, ha, hb, hmore]; rfl, ?_⟩
      rw [List.length_cons]
      omega

end PriceOracle.Hex

namespace PriceOracle.Address

/-- A text of 40 digits with an optional mark in front. -/
def Written (mark : List Char) (text : String) : Prop :=
  ∃ digits : List Char, digits.length = 40 ∧ (∀ c ∈ digits, Hex.IsDigit c) ∧
    (text.toList = digits ∨ text.toList = mark ++ digits)

/-- A mark is taken off where there is one. -/
theorem unmarked_cases (cs : List Char) :
    cs = unmarked cs ∨ cs = ['0', 'x'] ++ unmarked cs ∨ cs = ['0', 'X'] ++ unmarked cs := by
  unfold unmarked
  split <;> simp

theorem unmarked_of_digits {cs : List Char} (h : ∀ c ∈ cs, Hex.IsDigit c) : unmarked cs = cs := by
  have hx : ¬Hex.IsDigit 'x' := by unfold Hex.IsDigit; decide
  have hX : ¬Hex.IsDigit 'X' := by unfold Hex.IsDigit; decide
  unfold unmarked
  split
  · exact absurd (h 'x' (by simp)) hx
  · exact absurd (h 'X' (by simp)) hX
  · rfl

theorem ofChars_isSome_iff {cs : List Char} : (ofChars? cs).isSome ↔
    (unmarked cs).length = 40 ∧ ∀ c ∈ unmarked cs, Hex.IsDigit c := by
  rw [← Hex.decode_isSome_iff (n := 20), ofChars?]
  cases Hex.decode? (unmarked cs) with
  | none => simp
  | some bytes => by_cases h : bytes.length = 20 <;> simp [ofBytes?, h]

/-- The texts that are read as addresses have 40 digits, and `0x`, `0X` or nothing before them. -/
theorem ofText_isSome_iff {text : String} :
    (ofText? text).isSome ↔ Written ['0', 'x'] text ∨ Written ['0', 'X'] text := by
  rw [ofText?, ofChars_isSome_iff]
  constructor
  · rintro ⟨hlength, hdigits⟩
    obtain hcs | hcs | hcs := unmarked_cases text.toList
    · exact .inl ⟨_, hlength, hdigits, .inl hcs⟩
    · exact .inl ⟨_, hlength, hdigits, .inr hcs⟩
    · exact .inr ⟨_, hlength, hdigits, .inr hcs⟩
  · rintro (⟨digits, hlength, hdigits, hcs | hcs⟩ | ⟨digits, hlength, hdigits, hcs | hcs⟩)
    · rw [hcs, unmarked_of_digits hdigits]
      exact ⟨hlength, hdigits⟩
    · rw [hcs]
      exact ⟨hlength, hdigits⟩
    · rw [hcs, unmarked_of_digits hdigits]
      exact ⟨hlength, hdigits⟩
    · rw [hcs]
      exact ⟨hlength, hdigits⟩

end PriceOracle.Address
