import Mathlib.Data.List.Basic
import Mathlib.Data.List.Infix
import Mathlib.Data.List.TakeWhile
import PriceOracle.Config.Substitution

/-!
# References in a text

A reference starts with a dollar sign and has no other one in it, so that two references in a text
are either the same or apart. The lemmas say where a reference can stand in a text with another one
in it, and what `Config.replace` makes of such a text.

* `IsName`: the names of variables; `referenceAt_eq_some_iff`: the references that are recognized.
* `prefix_before`, `infix_apart`: references do not overlap.
* `replace_first`: a reference is replaced where it stands first.
* `eq_of_replace_eq_self`: replacing alters a text unless the reference stands for itself.
-/

namespace PriceOracle.Config

variable {name name' pattern value text xs ys : List Char}

/-! ## Names -/

/-- The name of a variable. -/
structure IsName (name : List Char) : Prop where
  starts : ∃ c, name.head? = some c ∧ isNameStart c = true
  parts : ∀ c ∈ name, isNamePart c = true

/-- What follows the dollar sign of a reference. -/
def body (name : List Char) : List Char := '{' :: name ++ ['\x7d']

theorem reference_eq (name : List Char) : reference name = '$' :: body name := rfl

theorem IsName.dollar_not_mem_body (h : IsName name) : '$' ∉ body name := by
  intro hmem
  rcases List.mem_append.mp hmem with hmem | hmem
  · rcases List.mem_cons.mp hmem with hmem | hmem
    · exact absurd hmem (by decide)
    · exact absurd (h.parts _ hmem) (by decide)
  · exact absurd (List.mem_singleton.mp hmem) (by decide)

/-- The references at the start of a text that are recognized. -/
theorem referenceAt_eq_some_iff :
    referenceAt? text = some name ↔ IsName name ∧ reference name <+: text := by
  constructor
  · intro h
    unfold referenceAt? at h
    split at h
    next rest =>
      simp only [Option.ite_none_right_eq_some, Bool.and_eq_true, Option.some_inj,
        beq_iff_eq, Option.any_eq_true] at h
      obtain ⟨⟨hstarts, hclosed⟩, rfl⟩ := h
      refine ⟨⟨hstarts, fun c hc => (List.mem_takeWhile_imp hc)⟩, ?_⟩
      obtain ⟨more, hmore⟩ := List.head?_eq_some_iff.mp hclosed
      refine ⟨more, ?_⟩
      have hsplit := List.takeWhile_append_dropWhile (p := isNamePart) (l := rest)
      rw [hmore] at hsplit
      simp [reference, hsplit]
    next => cases h
  · rintro ⟨hname, more, rfl⟩
    have hclose : ('\x7d' :: more).takeWhile isNamePart = [] := rfl
    have htake : (name ++ '\x7d' :: more).takeWhile isNamePart = name := by
      rw [List.takeWhile_append_of_pos hname.parts, hclose, List.append_nil]
    have hdrop : (name ++ '\x7d' :: more).dropWhile isNamePart = '\x7d' :: more := by
      rw [List.dropWhile_append_of_pos hname.parts]
      rfl
    obtain ⟨c, hhead, hstart⟩ := hname.starts
    simp [reference, referenceAt?, htake, hdrop, hhead, hstart]

theorem IsName.eq_of_starts (h : IsName name) (h' : IsName name') (hx : reference name <+: text)
    (hx' : reference name' <+: text) : name = name' := by
  have hfirst := referenceAt_eq_some_iff.mpr ⟨h, hx⟩
  rw [referenceAt_eq_some_iff.mpr ⟨h', hx'⟩] at hfirst
  exact (Option.some.inj hfirst).symm

/-! ## References apart -/

/-- What has no dollar sign and is in front of one ends before it. -/
theorem prefix_of_prefix_dollar {p : List Char} (hp : '$' ∉ p) (h : p <+: xs ++ '$' :: ys) :
    p <+: xs := by
  induction xs generalizing p with
  | nil =>
    cases p with
    | nil => exact List.nil_prefix
    | cons c p => exact absurd (by simp [(List.cons_prefix_cons.mp h).1]) hp
  | cons x xs ih =>
    cases p with
    | nil => exact List.nil_prefix
    | cons c p =>
      obtain ⟨rfl, hrest⟩ := List.cons_prefix_cons.mp h
      rw [List.mem_cons, not_or] at hp
      exact List.cons_prefix_cons.mpr ⟨rfl, ih hp.2 hrest⟩

/-- What starts with a dollar sign stands behind a text without one. -/
theorem infix_of_infix_append {p : List Char} (hxs : '$' ∉ xs) (h : '$' :: p <:+: xs ++ ys) :
    '$' :: p <:+: ys := by
  induction xs with
  | nil => exact h
  | cons x xs ih =>
    rw [List.mem_cons, not_or] at hxs
    rcases List.infix_cons_iff.mp h with h | h
    · exact absurd (List.cons_prefix_cons.mp h).1 hxs.1
    · exact ih hxs.2 h

/-- A reference that starts in front of another one ends in front of it. -/
theorem prefix_before {c : Char} (h : IsName name)
    (hx : reference name <+: c :: xs ++ reference name' ++ ys) : reference name <+: c :: xs := by
  rw [List.append_assoc, List.cons_append, reference_eq, List.cons_prefix_cons] at hx
  exact List.cons_prefix_cons.mpr ⟨hx.1, prefix_of_prefix_dollar h.dollar_not_mem_body hx.2⟩

/-- A reference stands on one side of a reference to another name. -/
theorem infix_apart (h : IsName name) (h' : IsName name') (hne : name ≠ name')
    (hx : reference name <:+: xs ++ reference name' ++ ys) :
    reference name <:+: xs ∨ reference name <:+: ys := by
  induction xs with
  | nil =>
    rcases List.infix_cons_iff.mp hx with hx | hx
    · exact absurd (h.eq_of_starts h' hx (List.prefix_append _ ys)) hne
    · exact .inr (infix_of_infix_append h'.dollar_not_mem_body hx)
  | cons c xs ih =>
    rcases List.infix_cons_iff.mp hx with hx | hx
    · exact .inl (prefix_before h hx).isInfix
    · exact (ih hx).imp_left (List.infix_cons ·)

/-- A reference that stands in a text stands first somewhere. -/
theorem exists_first (hx : reference name <:+: text) :
    ∃ xs ys, text = xs ++ reference name ++ ys ∧ ¬reference name <:+: xs := by
  induction text with
  | nil => exact absurd (List.infix_nil.mp hx) (List.cons_ne_nil _ _)
  | cons c text ih =>
    by_cases hhere : reference name <+: c :: text
    · obtain ⟨ys, hys⟩ := hhere
      exact ⟨[], ys, hys.symm, fun hnil => absurd (List.infix_nil.mp hnil) (List.cons_ne_nil _ _)⟩
    · obtain ⟨xs, ys, rfl, hfirst⟩ := ih ((List.infix_cons_iff.mp hx).resolve_left hhere)
      refine ⟨c :: xs, ys, rfl, fun hc => ?_⟩
      rcases List.infix_cons_iff.mp hc with hc | hc
      · exact hhere (hc.trans ⟨reference name ++ ys, by simp⟩)
      · exact hfirst hc

/-! ## Replacing -/

theorem replaceFrom_skip (pattern value xs ys : List Char) :
    replaceFrom pattern value xs.length (xs ++ ys) = replaceFrom pattern value 0 ys := by
  induction xs with
  | nil => rfl
  | cons x xs ih => exact ih

theorem replace_cons {c : Char} (h : ¬pattern <+: c :: text) :
    replace pattern value (c :: text) = c :: replace pattern value text := by
  rw [replace, replaceFrom, if_neg (by rwa [List.isPrefixOf_iff_prefix])]
  rfl

theorem replace_reference (name value text : List Char) :
    replace (reference name) value (reference name ++ text)
      = value ++ replace (reference name) value text := by
  have hskip := replaceFrom_skip (reference name) value (body name) text
  rw [reference_eq, List.cons_append, replace, replaceFrom, ← List.cons_append, ← reference_eq,
    if_pos (List.isPrefixOf_iff_prefix.mpr (List.prefix_append _ _))]
  exact congrArg (value ++ ·) hskip

theorem replace_of_absent (h : ¬pattern <:+: text) : replace pattern value text = text := by
  induction text with
  | nil => rfl
  | cons c text ih =>
    rw [List.infix_cons_iff, not_or] at h
    rw [replace_cons h.1, ih h.2]

/-- A reference is replaced where it stands first, and what is in front of it is copied. -/
theorem replace_first (h : IsName name) (hxs : ¬reference name <:+: xs) (value ys : List Char) :
    replace (reference name) value (xs ++ reference name ++ ys)
      = xs ++ value ++ replace (reference name) value ys := by
  induction xs with
  | nil => exact replace_reference name value ys
  | cons c xs ih =>
    rw [List.infix_cons_iff, not_or] at hxs
    have hnot : ¬reference name <+: c :: (xs ++ reference name ++ ys) :=
      fun hx => hxs.1 (prefix_before h hx)
    rw [List.cons_append, List.cons_append, replace_cons hnot, ih hxs.2]
    rfl

/-- A reference that stands for itself is replaced by itself. -/
theorem replace_self (name text : List Char) :
    replace (reference name) (reference name) text = text := by
  have hfrom (skip : Nat) :
      replaceFrom (reference name) (reference name) skip text = text.drop skip := by
    induction text generalizing skip with
    | nil => cases skip <;> rfl
    | cons c text ih =>
      cases skip with
      | succ skip => exact ih skip
      | zero =>
        rw [replaceFrom]
        split
        next hhere =>
          obtain ⟨ys, hys⟩ := List.isPrefixOf_iff_prefix.mp hhere
          rw [reference_eq, List.cons_append, List.cons.injEq] at hys
          rw [ih, ← hys.2, ← hys.1, reference_eq, List.length_cons, Nat.add_sub_cancel,
            List.drop_left]
          rfl
        next => rw [ih]; rfl
  exact hfrom 0

/-- Each replaced reference changes the length alike. -/
theorem length_replace (h : IsName name) (value text : List Char) :
    ∃ count, (replace (reference name) value text).length + count * (reference name).length
      = text.length + count * value.length := by
  by_cases hx : reference name <:+: text
  · obtain ⟨xs, ys, rfl, hfirst⟩ := exists_first hx
    have hshorter : ys.length < (xs ++ reference name ++ ys).length := by
      simp only [List.length_append, reference_eq, List.length_cons]
      omega
    obtain ⟨count, hcount⟩ := length_replace h value ys
    refine ⟨count + 1, ?_⟩
    rw [replace_first h hfirst]
    simp only [List.length_append, Nat.add_mul]
    omega
  · exact ⟨0, by rw [replace_of_absent hx, Nat.zero_mul, Nat.zero_mul]⟩
termination_by text.length

/-- Replacing alters a text in which the reference stands, unless it stands for itself. -/
theorem eq_of_replace_eq_self (h : IsName name) (hx : reference name <:+: text)
    (hself : replace (reference name) value text = text) : value = reference name := by
  obtain ⟨xs, ys, rfl, hfirst⟩ := exists_first hx
  rw [replace_first h hfirst, List.append_assoc, List.append_assoc, List.append_cancel_left_eq]
    at hself
  obtain ⟨count, hcount⟩ := length_replace h value ys
  have hlength := congrArg List.length hself
  simp only [List.length_append] at hlength
  have hsame : value.length = (reference name).length := by
    rcases Nat.lt_trichotomy value.length (reference name).length with hlt | heq | hgt
    · have := Nat.mul_le_mul_left count hlt.le
      omega
    · exact heq
    · have := Nat.mul_le_mul_left count hgt.le
      omega
  exact (List.append_inj hself hsame).1

end PriceOracle.Config
