import Mathlib.Data.List.Basic
import Mathlib.Data.List.TakeWhile
import PriceOracle.Text.Blank
import PriceOracle.Text.Split

/-!
# Pieces and ends of texts

A text that is made of pieces without the mark splits into these pieces again (`splitOn_join`), and
a text with a mark in it splits on both sides of it (`splitOn_append`). A text is its own trim when
neither its first nor its last character is a blank (`trim_eq_self_iff`), so that texts which are
their own trim can be put together (`trim_append`). What is trimmed off are blanks (`exists_pad`),
and all blanks around such a text are (`trim_pad`).
-/

namespace PriceOracle.Text

variable {mark : Char} {cs xs ys : List Char}

/-! ## Splitting -/

theorem splitOn_mark (xs : List Char) : splitOn mark (mark :: xs) = [] :: splitOn mark xs := by
  rw [splitOn, if_pos rfl]

/-- A character that is not the mark goes to the first piece. -/
theorem splitOn_cons {c : Char} {piece : List Char} {more : List (List Char)} (hc : c ≠ mark)
    (hxs : splitOn mark xs = piece :: more) : splitOn mark (c :: xs) = (c :: piece) :: more := by
  rw [splitOn, if_neg hc, hxs]

/-- A mark ends a piece and starts the next one. -/
theorem splitOn_append (mark : Char) (xs ys : List Char) :
    splitOn mark (xs ++ mark :: ys) = splitOn mark xs ++ splitOn mark ys := by
  induction xs with
  | nil => exact splitOn_mark ys
  | cons c xs ih =>
    by_cases hc : c = mark
    · rw [hc, List.cons_append, splitOn_mark, splitOn_mark, ih, List.cons_append]
    · obtain ⟨piece, more, hxs⟩ := List.exists_cons_of_ne_nil (splitOn_ne_nil mark xs)
      rw [hxs, List.cons_append] at ih
      rw [splitOn_cons hc hxs, List.cons_append, splitOn_cons hc ih, List.cons_append]

/-- A text without the mark is one piece. -/
theorem splitOn_of_not_mem (h : mark ∉ xs) : splitOn mark xs = [xs] := by
  induction xs with
  | nil => rfl
  | cons c xs ih =>
    rw [List.mem_cons, not_or] at h
    exact splitOn_cons (Ne.symm h.1) (ih h.2)

/-- Splitting undoes joining. -/
theorem splitOn_join {pieces : List (List Char)} (hne : pieces ≠ [])
    (hpieces : ∀ piece ∈ pieces, mark ∉ piece) : splitOn mark (join mark pieces) = pieces := by
  match pieces, hne with
  | [piece], _ => exact splitOn_of_not_mem (hpieces piece List.mem_cons_self)
  | piece :: next :: rest, _ =>
    have hrest := splitOn_join (List.cons_ne_nil next rest) fun p hp =>
      hpieces p (List.mem_cons_of_mem _ hp)
    rw [join, splitOn_append, splitOn_of_not_mem (hpieces piece List.mem_cons_self), hrest,
      List.singleton_append]
    exact List.cons_ne_nil next rest

/-- What has no mark goes to the last piece. -/
theorem splitOn_append_of_not_mem {init : List (List Char)} {last : List Char}
    (hxs : splitOn mark xs = init ++ [last]) (hys : mark ∉ ys) :
    splitOn mark (xs ++ ys) = init ++ [last ++ ys] := by
  induction xs generalizing init last with
  | nil =>
    cases init with
    | nil =>
      obtain ⟨rfl, -⟩ := List.cons.inj hxs
      exact splitOn_of_not_mem hys
    | cons first init => exact absurd (List.cons.inj hxs).2.symm (by simp)
  | cons c xs ih =>
    -- A mark opens a new piece; any other character joins the first one.
    by_cases hc : c = mark
    · rw [hc, splitOn_mark] at hxs
      rw [hc, List.cons_append, splitOn_mark]
      cases init with
      | nil => exact absurd (List.cons.inj hxs).2 (splitOn_ne_nil mark xs)
      | cons first init =>
        obtain ⟨rfl, hrest⟩ := List.cons.inj hxs
        rw [ih hrest, List.cons_append]
    · obtain ⟨piece, more, hpieces⟩ := List.exists_cons_of_ne_nil (splitOn_ne_nil mark xs)
      rw [splitOn_cons hc hpieces] at hxs
      cases init with
      | nil =>
        obtain ⟨rfl, rfl⟩ := List.cons.inj hxs
        exact splitOn_cons hc (@ih [] piece hpieces)
      | cons first init =>
        obtain ⟨rfl, rfl⟩ := List.cons.inj hxs
        exact splitOn_cons hc (@ih (piece :: init) last hpieces)

/-! ## Trimming -/

theorem dropWhile_eq_self_iff_head {p : Char → Bool} :
    cs.dropWhile p = cs ↔ ∀ c, cs.head? = some c → p c = false := by
  cases cs with
  | nil => simp
  | cons c cs =>
    rw [List.dropWhile_eq_self_iff]
    simp

theorem trimEnd_eq_self_iff :
    trimEnd cs = cs ↔ ∀ c, cs.getLast? = some c → isBlank c = false := by
  rw [← List.head?_reverse, ← dropWhile_eq_self_iff_head, trimEnd, List.reverse_eq_iff]

/-- A text is its own trim when no blank is at its ends. -/
theorem trim_eq_self_iff : trim cs = cs ↔ (∀ c, cs.head? = some c → isBlank c = false) ∧
    ∀ c, cs.getLast? = some c → isBlank c = false := by
  have hstart : trimStart cs = cs ↔ ∀ c, cs.head? = some c → isBlank c = false :=
    dropWhile_eq_self_iff_head
  rw [← hstart, ← trimEnd_eq_self_iff]
  constructor
  · intro h
    -- What is dropped at one end cannot be made up for at the other.
    have hshort : (trimEnd (trimStart cs)).length ≤ (trimStart cs).length := by
      rw [trimEnd, List.length_reverse]
      exact (List.dropWhile_suffix isBlank).length_le.trans List.length_reverse.le
    have hsuffix : trimStart cs <:+ cs := List.dropWhile_suffix isBlank
    have hwhole : trimStart cs = cs :=
      hsuffix.eq_of_length_le (by rw [trim] at h; rwa [h] at hshort)
    exact ⟨hwhole, by rwa [trim, hwhole] at h⟩
  · rintro ⟨hwhole, h⟩
    rw [trim, hwhole, h]

/-- Texts that are their own trim, put together with anything between them, are their own trim. -/
theorem trim_append (hxs : trim xs = xs) (hys : trim ys = ys) (hxs' : xs ≠ []) (hys' : ys ≠ [])
    (between : List Char) : trim (xs ++ (between ++ ys)) = xs ++ (between ++ ys) := by
  rw [trim_eq_self_iff] at hxs hys ⊢
  constructor
  · rw [List.head?_append_of_ne_nil _ hxs']
    exact hxs.1
  · rw [← List.append_assoc, List.getLast?_append_of_ne_nil _ hys']
    exact hys.2

/-- No blank is at the end of a trimmed text. -/
theorem isBlank_of_getLast_trim {c : Char} (h : (trim cs).getLast? = some c) :
    isBlank c = false := by
  rw [trim, trimEnd, List.getLast?_reverse] at h
  have hhead := List.head?_dropWhile_not isBlank (trimStart cs).reverse
  rw [h] at hhead
  exact hhead

theorem trimEnd_append_blanks {blanks : List Char} (h : ∀ c ∈ blanks, isBlank c = true) :
    trimEnd (xs ++ blanks) = trimEnd xs := by
  rw [trimEnd, trimEnd, List.reverse_append, List.dropWhile_append_of_pos]
  exact fun c hc => h c (List.mem_reverse.mp hc)

/-- Blanks around a text that needs no trimming are trimmed off. -/
theorem trim_pad {left right : List Char} (hleft : ∀ c ∈ left, isBlank c = true)
    (hright : ∀ c ∈ right, isBlank c = true) (hcs : trim cs = cs) :
    trim (left ++ (cs ++ right)) = cs := by
  rw [trim, trimStart, List.dropWhile_append_of_pos hleft, ← trimStart]
  cases cs with
  | nil =>
    have hnil : trimStart right = [] := List.dropWhile_eq_nil_iff.mpr hright
    rw [List.nil_append, hnil]
    rfl
  | cons c cs =>
    have hc : isBlank c = false := (trim_eq_self_iff.mp hcs).1 c rfl
    have hstart (tail : List Char) : trimStart (c :: tail) = c :: tail :=
      List.dropWhile_cons_of_neg (by simp [hc])
    rw [trim, hstart] at hcs
    rw [List.cons_append, hstart, ← List.cons_append, trimEnd_append_blanks hright, hcs]

/-- What is trimmed off are blanks. -/
theorem exists_pad (cs : List Char) : ∃ left right, cs = left ++ (trim cs ++ right) ∧
    (∀ c ∈ left, isBlank c = true) ∧ ∀ c ∈ right, isBlank c = true := by
  have hend : trimStart cs = trim cs ++ ((trimStart cs).reverse.takeWhile isBlank).reverse := by
    rw [trim, trimEnd, ← List.reverse_append, List.takeWhile_append_dropWhile, List.reverse_reverse]
  refine ⟨cs.takeWhile isBlank, ((trimStart cs).reverse.takeWhile isBlank).reverse, ?_,
    fun c hc => List.mem_takeWhile_imp hc, ?_⟩
  · rw [← hend, trimStart, List.takeWhile_append_dropWhile]
  · intro c hc
    exact List.mem_takeWhile_imp (List.mem_reverse.mp hc)

end PriceOracle.Text
