import Mathlib.Data.List.Induction
import PriceOracle.Schema
import PriceOracle.Proofs.Text.Digits
import PriceOracle.Proofs.Text.Pieces

/-!
# Places in settings

A place is written as names with dots between them, and each index in brackets behind the name of
its array. `Place.ofText?` reads such a path again, and `Place.value?` follows a place from the root
of some settings.

* `Place.ofText_text`: a place that starts with a name, and whose names have no dot and no bracket,
  is read back from its path.
* `Place.value_append`: a place is followed step by step.
-/

namespace PriceOracle.Schema

/-- A name that can stand in a path: without dots and brackets. -/
def IsPlain (name : String) : Prop := '.' ∉ name.toList ∧ '[' ∉ name.toList ∧ ']' ∉ name.toList

instance (name : String) : Decidable (IsPlain name) := by unfold IsPlain; infer_instance

namespace Place

/-! ## Following a place -/

/-- The value at a place. -/
def value? : Place → Setting → Option Setting
  | [], s => some s
  | .name name :: rest, s => (s.get? name).bind (value? rest)
  | .index i :: rest, .array items => items[i]?.bind (value? rest)
  | .index _ :: _, _ => none

theorem value_append (p q : Place) (s : Setting) :
    value? (p ++ q) s = (value? p s).bind (value? q) := by
  induction p generalizing s with
  | nil => rfl
  | cons step p ih =>
    cases step with
    | name name =>
      rw [List.cons_append, value?, value?, Option.bind_assoc]
      exact congrArg _ (funext ih)
    | index i =>
      cases s with
      | array items =>
        rw [List.cons_append, value?, value?, Option.bind_assoc]
        exact congrArg _ (funext ih)
      | _ => rfl

/-! ## Reading a path -/

/-- The index that is written between brackets, the first of which was taken off. -/
def readIndex? (cs : List Char) : Option Step :=
  if cs.getLast? = some ']' then (Digits.toNat? cs.dropLast).map .index else none

/-- The steps of a name with indices behind it. -/
def readSegment? (cs : List Char) : Option Place :=
  match Text.splitOn '[' cs with
  | [] => none
  | name :: indices => (indices.mapM readIndex?).map (.name (String.ofList name) :: ·)

/-- The place that a path from the root leads to. -/
def ofText? (text : String) : Option Place :=
  ((Text.splitOn '.' text.toList).mapM readSegment?).map List.flatten

/-! ## Writing a path -/

theorem restText_append (p q : Place) : restText (p ++ q) = restText p ++ restText q := by
  induction p with
  | nil => simp [restText]
  | cons step p ih => cases step <;> simp [restText, ih, String.append_assoc]

theorem text_append {p : Place} (hp : p ≠ []) (q : Place) :
    text (p ++ q) = text p ++ restText q := by
  cases p with
  | nil => exact absurd rfl hp
  | cons step p => cases step <;> simp [text, restText_append, String.append_assoc]

theorem text_append_name {p : Place} (hp : p ≠ []) (name : String) :
    (text (p ++ [.name name])).toList = (text p).toList ++ '.' :: name.toList := by
  simp [text_append hp, restText]

theorem text_append_index {p : Place} (hp : p ≠ []) (i : Nat) :
    (text (p ++ [.index i])).toList = (text p).toList ++ '[' :: (Digits.ofNat i ++ [']']) := by
  simp [text_append hp, restText, Digits.ofNat]
  rfl

/-! ## Reading what was written -/

theorem readIndex_digits (i : Nat) : readIndex? (Digits.ofNat i ++ [']']) = some (.index i) := by
  have hread : Digits.toNat? (Digits.ofNat i) = some i := by
    rw [Digits.toNat_eq_some (Digits.ofNat_ne_nil i) fun _ => Digits.isDigit_of_mem_ofNat,
      Digits.toNat_ofNat]
  simp [readIndex?, hread]

/-- What is written for an index behind the opening bracket has no mark that a path is cut at. -/
theorem not_mem_index {c : Char} (hdigit : c.isDigit = false) (hc : c ≠ ']') (i : Nat) :
    c ∉ Digits.ofNat i ++ [']'] := by
  intro hmem
  rcases List.mem_append.mp hmem with hmem | hmem
  · rw [Digits.isDigit_of_mem_ofNat hmem] at hdigit
    cases hdigit
  · exact hc (List.mem_singleton.mp hmem)

theorem readSegment_name {name : String} (h : '[' ∉ name.toList) :
    readSegment? name.toList = some [.name name] := by
  simp [readSegment?, Text.splitOn_of_not_mem h]

/-- An index behind a segment is the last step of it. -/
theorem readSegment_index {cs : List Char} {steps : Place} (h : readSegment? cs = some steps)
    (i : Nat) : readSegment? (cs ++ '[' :: (Digits.ofNat i ++ [']'])) =
      some (steps ++ [.index i]) := by
  have hindex : '[' ∉ Digits.ofNat i ++ [']'] := not_mem_index rfl (by decide) i
  rw [readSegment?] at h
  rw [readSegment?, Text.splitOn_append, Text.splitOn_of_not_mem hindex]
  cases hcs : Text.splitOn '[' cs with
  | nil => exact absurd hcs (Text.splitOn_ne_nil _ _)
  | cons name indices =>
    rw [hcs] at h
    obtain ⟨before, hbefore, rfl⟩ := Option.map_eq_some_iff.mp h
    simp [List.mapM_append, hbefore, readIndex_digits]

/-- A path is read as a place, segment by segment, with the last segment still to be written on. -/
def ReadAs (path : List Char) (p : Place) : Prop :=
  ∃ init last before steps, Text.splitOn '.' path = init ++ [last] ∧
    init.mapM readSegment? = some before ∧ readSegment? last = some steps ∧
    p = before.flatten ++ steps

namespace ReadAs

variable {path : List Char} {p : Place}

theorem start {name : String} (h : IsPlain name) : ReadAs name.toList [.name name] :=
  ⟨[], name.toList, [], [.name name], Text.splitOn_of_not_mem h.1, rfl, readSegment_name h.2.1, rfl⟩

theorem name (h : ReadAs path p) {name : String} (hname : IsPlain name) :
    ReadAs (path ++ '.' :: name.toList) (p ++ [.name name]) := by
  obtain ⟨init, last, before, steps, hsplit, hinit, hlast, rfl⟩ := h
  refine ⟨init ++ [last], name.toList, before ++ [steps], [.name name], ?_, ?_,
    readSegment_name hname.2.1, ?_⟩
  · rw [Text.splitOn_append, hsplit, Text.splitOn_of_not_mem hname.1]
  · simp [List.mapM_append, hinit, hlast]
  · simp

theorem index (h : ReadAs path p) (i : Nat) :
    ReadAs (path ++ '[' :: (Digits.ofNat i ++ [']'])) (p ++ [.index i]) := by
  obtain ⟨init, last, before, steps, hsplit, hinit, hlast, rfl⟩ := h
  refine ⟨init, _, before, _, Text.splitOn_append_of_not_mem hsplit ?_, hinit,
    readSegment_index hlast i, List.append_assoc _ _ _⟩
  rw [List.mem_cons, not_or]
  exact ⟨by decide, not_mem_index rfl (by decide) i⟩

theorem ofText {text : String} (h : ReadAs text.toList p) : ofText? text = some p := by
  obtain ⟨init, last, before, steps, hsplit, hinit, hlast, rfl⟩ := h
  simp [ofText?, hsplit, List.mapM_append, hinit, hlast]

end ReadAs

/-- A place that starts with a name, and whose names are plain, is read back from its path. -/
theorem ofText_text {name : String} {rest : Place}
    (hplain : ∀ n, .name n ∈ Step.name name :: rest → IsPlain n) :
    ofText? (text (.name name :: rest)) = some (.name name :: rest) := by
  refine ReadAs.ofText ?_
  induction rest using List.reverseRecOn with
  | nil =>
    have hstart := ReadAs.start (hplain name List.mem_cons_self)
    simpa [text, restText] using hstart
  | append_singleton rest step ih =>
    have hrest := ih fun n hn => hplain n (List.mem_append_left [step] hn)
    cases step with
    | name n =>
      rw [← List.cons_append, text_append_name (List.cons_ne_nil _ _)]
      exact hrest.name (hplain n (List.mem_append_right (_ :: rest) (List.mem_singleton_self _)))
    | index i =>
      rw [← List.cons_append, text_append_index (List.cons_ne_nil _ _)]
      exact hrest.index i

end Place

end PriceOracle.Schema
