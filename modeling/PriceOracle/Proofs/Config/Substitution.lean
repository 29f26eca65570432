import PriceOracle.Proofs.Config.References

/-!
# References replaced in one pass

A text is cut into its references and the characters between them. One pass over the text replaces
each reference by the value of its variable and copies the characters, so that nothing in a value is
taken for a reference. `Config.substitute` goes through the references one after the other instead,
and replaces each of them in the text as it is by then.

* `Cut`, `render`: the pieces of a text, and the text with others in place of its references.
* `replace_render`: replacing one reference everywhere takes one more name into the pass, if the
  reference does not stand in the text afterwards.
* `infix_render`: a reference that stands in a text is still there when others are replaced.
* `substitute_one_pass`: a variable that is not set is reported, the leftmost one. Otherwise the
  result is that of one pass, in whatever order the names are taken, exactly when no reference to
  one of them stands in that result.
-/

namespace PriceOracle.Config

variable {name text xs : List Char} {names : List (List Char)} {pieces : List Piece}
  {lookup : String → Option String}

/-! ## Pieces -/

/-- A piece of a text. -/
inductive Piece where
  | char (c : Char)
  | ref (name : List Char)

/-- The pieces of a text from left to right. A character is a piece of its own where no reference
starts. -/
inductive Cut : List Char → List Piece → Prop where
  | done : Cut [] []
  | char {c : Char} {text : List Char} {pieces : List Piece}
      (hplain : ∀ name, IsName name → ¬reference name <+: c :: text) (hrest : Cut text pieces) :
      Cut (c :: text) (.char c :: pieces)
  | ref {name text : List Char} {pieces : List Piece} (hname : IsName name)
      (hrest : Cut text pieces) : Cut (reference name ++ text) (.ref name :: pieces)

/-- The names that pieces refer to, in order. -/
def namesOf : List Piece → List (List Char)
  | [] => []
  | .char _ :: rest => namesOf rest
  | .ref name :: rest => name :: namesOf rest

/-- The text of pieces, with a text for each name in place of the references to it. -/
def render (value : List Char → List Char) : List Piece → List Char
  | [] => []
  | .char c :: rest => c :: render value rest
  | .ref name :: rest => value name ++ render value rest

/-- The values of some names. References to other names stand for themselves. -/
def valuesOf (lookup : String → Option String) (names : List (List Char)) (name : List Char) :
    List Char :=
  if name ∈ names then (lookup (String.ofList name)).elim (reference name) String.toList
  else reference name

/-- Every text can be cut. -/
theorem exists_cut (text : List Char) : ∃ pieces, Cut text pieces := by
  by_cases hx : ∃ name, IsName name ∧ reference name <+: text
  · obtain ⟨name, hname, rest, rfl⟩ := hx
    have hshorter : rest.length < (reference name ++ rest).length := by
      rw [reference_eq, List.length_append, List.length_cons]
      omega
    obtain ⟨pieces, hrest⟩ := exists_cut rest
    exact ⟨_, .ref hname hrest⟩
  · match text with
    | [] => exact ⟨[], .done⟩
    | c :: text =>
      obtain ⟨pieces, hrest⟩ := exists_cut text
      exact ⟨_, .char (fun name hname hstarts => hx ⟨name, hname, hstarts⟩) hrest⟩
termination_by text.length

namespace Cut

theorem isName (h : Cut text pieces) : ∀ name ∈ namesOf pieces, IsName name := by
  induction h with
  | done => exact fun _ hn => absurd hn List.not_mem_nil
  | char _ _ ih => exact ih
  | ref hname _ ih => exact List.forall_mem_cons.mpr ⟨hname, ih⟩

/-- A text is what its pieces render, with each reference as it is. -/
theorem render_reference (h : Cut text pieces) : render reference pieces = text := by
  induction h with
  | done => rfl
  | char _ _ ih => rw [render, ih]
  | ref _ _ ih => rw [render, ih]

theorem references_append (hxs : '$' ∉ xs) (text : List Char) :
    references (xs ++ text) = references text := by
  induction xs with
  | nil => rfl
  | cons c xs ih =>
    rw [List.mem_cons, not_or] at hxs
    have hnone : referenceAt? (c :: (xs ++ text)) = none := by
      rw [Option.eq_none_iff_forall_ne_some]
      intro name hname
      obtain ⟨hc, -⟩ := List.cons_prefix_cons.mp (referenceAt_eq_some_iff.mp hname).2
      exact hxs.1 hc
    rw [List.cons_append, references, hnone]
    exact ih hxs.2

/-- The references of a text are those among its pieces. -/
theorem references_eq (h : Cut text pieces) : references text = namesOf pieces := by
  induction h with
  | done => rfl
  | @char c text pieces hplain _ ih =>
    have hnone : referenceAt? (c :: text) = none := by
      rw [Option.eq_none_iff_forall_ne_some]
      intro name hname
      obtain ⟨hname, hstarts⟩ := referenceAt_eq_some_iff.mp hname
      exact hplain name hname hstarts
    rw [references, hnone]
    exact ih
  | @ref name text pieces hname _ ih =>
    have hfound : referenceAt? ('$' :: (body name ++ text)) = some name :=
      referenceAt_eq_some_iff.mpr ⟨hname, List.prefix_append _ _⟩
    rw [reference_eq, List.cons_append, references, hfound]
    show name :: references (body name ++ text) = _
    rw [references_append hname.dollar_not_mem_body, ih]
    rfl

end Cut

/-! ## One name more -/

theorem render_congr {value value' : List Char → List Char}
    (h : ∀ name ∈ namesOf pieces, value name = value' name) :
    render value pieces = render value' pieces := by
  induction pieces with
  | nil => rfl
  | cons piece pieces ih =>
    cases piece with
    | char c => rw [render, render, ih h]
    | ref name =>
      rw [namesOf, List.forall_mem_cons] at h
      rw [render, render, h.1, ih h.2]

/-- Replacing a reference takes its name into the pass. What is in front of the text has been passed
over, and together with the text it has no reference to the name afterwards. -/
theorem replace_render {value value' : List Char → List Char} (hname : IsName name)
    (hsame : ∀ m ∈ namesOf pieces, m ≠ name → value' m = value m)
    (hkept : value name = reference name ∨ value name = value' name)
    (front : List Char) (hafter : ¬reference name <:+: front ++ render value' pieces) :
    replace (reference name) (value' name) (front ++ render value pieces)
      = front ++ render value' pieces := by
  induction pieces generalizing front with
  | nil => exact replace_of_absent hafter
  | cons piece pieces ih =>
    cases piece with
    | char c =>
      have hback := ih hsame (front ++ [c])
      simp only [List.append_assoc, List.singleton_append] at hback
      exact hback hafter
    | ref m =>
      rw [namesOf, List.forall_mem_cons] at hsame
      rw [render] at hafter ⊢
      by_cases hpassed : value m = value' m
      · have hback := ih hsame.2 (front ++ value' m)
        rw [render, hpassed, ← List.append_assoc]
        rw [← List.append_assoc] at hafter ⊢
        exact hback hafter
      · -- The reference stands in the text. None is in front of it, and none is in the rest.
        have hm : m = name := by
          by_contra hne
          exact hpassed (hsame.1 hne).symm
        subst hm
        have hfront : ¬reference m <:+: front :=
          fun hx => hafter (hx.trans (List.prefix_append _ _).isInfix)
        have hrest : ¬reference m <:+: [] ++ render value' pieces := fun hx =>
          hafter (hx.trans (((List.suffix_append _ _).trans (List.suffix_append _ _)).isInfix))
        have hback := ih hsame.2 [] hrest
        rw [List.nil_append, List.nil_append] at hback
        rw [render, hkept.resolve_right hpassed, ← List.append_assoc, replace_first hname hfront,
          hback, List.append_assoc]

/-- A reference that stands in a text is still there when references to other names are replaced. -/
theorem infix_render {value value' : List Char → List Char} (hname : IsName name)
    (hnames : ∀ m ∈ namesOf pieces, IsName m)
    (hsame : ∀ m ∈ namesOf pieces, value m = value' m ∨ value m = reference m ∧ m ≠ name)
    (front : List Char) (h : reference name <:+: front ++ render value pieces) :
    reference name <:+: front ++ render value' pieces := by
  induction pieces generalizing front with
  | nil => exact h
  | cons piece pieces ih =>
    cases piece with
    | char c =>
      have hback := ih hnames hsame (front ++ [c])
      simp only [List.append_assoc, List.singleton_append] at hback
      exact hback h
    | ref m =>
      rw [namesOf, List.forall_mem_cons] at hsame hnames
      rw [render] at h ⊢
      rcases hsame.1 with heq | ⟨hreference, hne⟩
      · have hback := ih hnames.2 hsame.2 (front ++ value' m)
        rw [heq, ← List.append_assoc] at h
        rw [← List.append_assoc]
        exact hback h
      · rw [hreference, ← List.append_assoc] at h
        rcases infix_apart hname hnames.1 (Ne.symm hne) h with hfront | hrest
        · exact hfront.trans (List.prefix_append _ _).isInfix
        · have hback := ih hnames.2 hsame.2 [] hrest
          exact hback.trans (((List.suffix_append _ _).trans (List.suffix_append _ _)).isInfix)

/-! ## All names -/

/-- A name is spent when no reference to it stands in a text, or one that stands for itself. -/
def Spent (lookup : String → Option String) (name text : List Char) : Prop :=
  reference name <:+: text → lookup (String.ofList name) = some (String.ofList (reference name))

theorem valuesOf_congr {names' : List (List Char)} (h : name ∈ names ↔ name ∈ names') :
    valuesOf lookup names name = valuesOf lookup names' name := by
  rw [valuesOf, valuesOf, if_congr h rfl rfl]

theorem valuesOf_of_ne {other : List Char} (h : other ≠ name) :
    valuesOf lookup (names ++ [name]) other = valuesOf lookup names other :=
  valuesOf_congr (by simp [h])

theorem valuesOf_of_mem {value : String} (h : name ∈ names)
    (hvalue : lookup (String.ofList name) = some value) :
    valuesOf lookup names name = value.toList := by
  rw [valuesOf, if_pos h, hvalue]
  rfl

/-- One reference is replaced after some others. -/
theorem replace_next {value : String} (hname : IsName name)
    (hvalue : lookup (String.ofList name) = some value)
    (hspent : Spent lookup name (render (valuesOf lookup (names ++ [name])) pieces)) :
    replace (reference name) value.toList (render (valuesOf lookup names) pieces)
      = render (valuesOf lookup (names ++ [name])) pieces := by
  have hnew : valuesOf lookup (names ++ [name]) name = value.toList :=
    valuesOf_of_mem (by simp) hvalue
  by_cases hx : reference name <:+: render (valuesOf lookup (names ++ [name])) pieces
  · have hself : value.toList = reference name := by
      have hvalue' := hspent hx
      rw [hvalue, Option.some_inj] at hvalue'
      rw [hvalue', String.toList_ofList]
    rw [hself, replace_self]
    refine render_congr fun m _ => ?_
    by_cases hm : m = name
    · subst hm
      rw [hnew, hself, valuesOf, hvalue]
      exact if_congr Iff.rfl hself rfl |>.trans (ite_self _)
    · exact (valuesOf_of_ne hm).symm
  · have hkept : valuesOf lookup names name = reference name ∨
        valuesOf lookup names name = valuesOf lookup (names ++ [name]) name := by
      by_cases hm : name ∈ names
      · exact .inr (valuesOf_congr (by simp [hm]))
      · exact .inl (if_neg hm)
    rw [← hnew]
    exact replace_render hname (fun m _ hm => valuesOf_of_ne hm) hkept [] hx

theorem substituteNames_cons {value : String} (hvalue : lookup (String.ofList name) = some value)
    (rest : List (List Char)) (text : List Char) :
    substituteNames lookup (name :: rest) text
      = substituteNames lookup rest (replace (reference name) value.toList text) := by
  rw [substituteNames, hvalue]

theorem substituteNames_append (xs ys : List (List Char)) (text : List Char) :
    substituteNames lookup (xs ++ ys) text
      = (substituteNames lookup xs text).bind (substituteNames lookup ys) := by
  induction xs generalizing text with
  | nil => rfl
  | cons m xs ih =>
    rw [List.cons_append, substituteNames, substituteNames]
    cases lookup (String.ofList m) with
    | none => rfl
    | some value => exact ih _

/-- Variables that are set have a result. -/
theorem substituteNames_ok (hset : ∀ m ∈ names, lookup (String.ofList m) ≠ none)
    (text : List Char) : ∃ result, substituteNames lookup names text = .ok result := by
  induction names generalizing text with
  | nil => exact ⟨text, rfl⟩
  | cons m names ih =>
    rw [List.forall_mem_cons] at hset
    obtain ⟨value, hvalue⟩ := Option.ne_none_iff_exists'.mp hset.1
    rw [substituteNames_cons hvalue]
    exact ih hset.2 _

/-- The first variable that is not set is reported. -/
theorem substituteNames_unset {earlier later : List (List Char)}
    (hset : ∀ m ∈ earlier, lookup (String.ofList m) ≠ none)
    (hunset : lookup (String.ofList name) = none) (text : List Char) :
    substituteNames lookup (earlier ++ name :: later) text
      = .error (.unsetVariable (String.ofList name)) := by
  obtain ⟨result, hresult⟩ := substituteNames_ok hset text
  rw [substituteNames_append, hresult, Except.bind, substituteNames, hunset]

/-- Names are taken one after the other, each of them spent by the time it has been taken. -/
theorem substituteNames_render (names : List (List Char)) {todo : List (List Char)}
    (hnames : ∀ name ∈ todo, IsName name)
    (hset : ∀ name ∈ todo, lookup (String.ofList name) ≠ none)
    (hspent : ∀ earlier name later, todo = earlier ++ name :: later →
      Spent lookup name (render (valuesOf lookup (names ++ earlier ++ [name])) pieces)) :
    substituteNames lookup todo (render (valuesOf lookup names) pieces)
      = .ok (render (valuesOf lookup (names ++ todo)) pieces) := by
  induction todo generalizing names with
  | nil => rw [List.append_nil, substituteNames]
  | cons name todo ih =>
    rw [List.forall_mem_cons] at hnames hset
    obtain ⟨value, hvalue⟩ := Option.ne_none_iff_exists'.mp hset.1
    have hfirst := hspent [] name todo rfl
    rw [List.append_nil] at hfirst
    rw [substituteNames_cons hvalue, replace_next hnames.1 hvalue hfirst, ih _ hnames.2 hset.2,
      List.append_assoc]
    · rfl
    · intro earlier other later htodo
      have hnext := hspent (name :: earlier) other later (by rw [htodo, List.cons_append])
      rwa [List.append_assoc names [name] earlier, List.singleton_append]

/-! ## The whole text -/

/-- With no name taken the text is as it is written. -/
theorem Cut.render_untouched (h : Cut text pieces) : render (valuesOf lookup []) pieces = text := by
  rw [← h.render_reference]
  exact render_congr fun m _ => if_neg List.not_mem_nil

/-- Names of a text are taken in some order, each of them spent by the time it has been taken. -/
theorem Cut.substituteNames (h : Cut text pieces) {order : List (List Char)}
    (horder : ∀ name, name ∈ order ↔ name ∈ namesOf pieces)
    (hset : ∀ name ∈ namesOf pieces, lookup (String.ofList name) ≠ none)
    (hspent : ∀ earlier name later, order = earlier ++ name :: later →
      Spent lookup name (render (valuesOf lookup (earlier ++ [name])) pieces)) :
    substituteNames lookup order text
      = .ok (render (valuesOf lookup (namesOf pieces)) pieces) := by
  have hrun := substituteNames_render [] (fun name hname => h.isName name ((horder name).mp hname))
    (fun name hname => hset name ((horder name).mp hname)) hspent
  rw [h.render_untouched, List.nil_append] at hrun
  rw [hrun]
  exact congrArg Except.ok (render_congr fun name _ => valuesOf_congr (horder name))

/-- What is spent at the end has been spent when it was taken. -/
theorem Spent.earlier (hcut : Cut text pieces) (hname : name ∈ namesOf pieces)
    (hmem : name ∈ names)
    (h : Spent lookup name (render (valuesOf lookup (namesOf pieces)) pieces)) :
    Spent lookup name (render (valuesOf lookup names) pieces) := by
  intro hx
  refine h (infix_render (hcut.isName name hname) hcut.isName ?_ [] hx)
  intro m hm
  by_cases htaken : m ∈ names
  · exact .inl (valuesOf_congr (by simp [htaken, hm]))
  · exact .inr ⟨if_neg htaken, fun heq => htaken (heq ▸ hmem)⟩

/-- The order of the names does not matter exactly when all of them are spent at the end. -/
theorem Cut.orders_iff_spent (h : Cut text pieces)
    (hset : ∀ name ∈ namesOf pieces, lookup (String.ofList name) ≠ none) :
    (∀ order, (∀ name, name ∈ order ↔ name ∈ namesOf pieces) →
      Config.substituteNames lookup order text
        = .ok (render (valuesOf lookup (namesOf pieces)) pieces)) ↔
      ∀ name ∈ namesOf pieces,
        Spent lookup name (render (valuesOf lookup (namesOf pieces)) pieces) := by
  constructor
  · intro horders name hname hx
    -- A name that is taken once more does not alter the result.
    have hagain := horders (namesOf pieces ++ [name]) (by simp [hname])
    obtain ⟨value, hvalue⟩ := Option.ne_none_iff_exists'.mp (hset name hname)
    rw [substituteNames_append, horders _ fun _ => Iff.rfl, Except.bind,
      substituteNames_cons hvalue] at hagain
    have hself := eq_of_replace_eq_self (h.isName name hname) hx (Except.ok.inj hagain)
    rw [hvalue, ← hself, String.ofList_toList]
  · intro hspent order horder
    refine h.substituteNames horder hset ?_
    rintro earlier name later rfl
    have hname := (horder name).mp (by simp)
    exact (hspent name hname).earlier h hname (by simp)

/-- The leftmost variable that is not set is reported. Otherwise there is a result, and it is that
of one pass as long as each name is spent once it and the names before it have been taken. It is
that of one pass in every order exactly when all names are spent in it. -/
theorem substitute_one_pass (lookup : String → Option String) (text : List Char) :
    (∃ pieces, Cut text pieces) ∧ ∀ pieces, Cut text pieces →
      let names := namesOf pieces
      let onePass := render (valuesOf lookup names) pieces
      (∀ earlier name later, names = earlier ++ name :: later →
        lookup (String.ofList name) = none → (∀ m ∈ earlier, lookup (String.ofList m) ≠ none) →
        substitute lookup text = .error (.unsetVariable (String.ofList name))) ∧
      ((∀ name ∈ names, lookup (String.ofList name) ≠ none) →
        (∃ result, substitute lookup text = .ok result) ∧
        ((∀ earlier name later, names = earlier ++ name :: later →
          Spent lookup name (render (valuesOf lookup (earlier ++ [name])) pieces)) →
          substitute lookup text = .ok onePass) ∧
        ((∀ order, (∀ name, name ∈ order ↔ name ∈ names) →
          substituteNames lookup order text = .ok onePass) ↔
          ∀ name ∈ names, Spent lookup name onePass)) := by
  refine ⟨exists_cut text, ?_⟩
  intro pieces hcut names onePass
  rw [substitute, hcut.references_eq]
  refine ⟨?_, fun hset => ⟨substituteNames_ok hset text, ?_, hcut.orders_iff_spent hset⟩⟩
  · intro earlier name later hsplit hunset hearlier
    rw [show namesOf pieces = _ from hsplit]
    exact substituteNames_unset hearlier hunset text
  · intro hspent
    exact hcut.substituteNames (fun _ => Iff.rfl) hset hspent

/-- An environment with a value that is written like a reference. -/
def nested (name : String) : Option String :=
  if name = "ORC_A" then some "$\x7bORC_B\x7d"
  else if name = "ORC_B" then some "deep"
  else none

/-- The pieces of a text with two references. -/
def twoReferences : List Piece := [.ref "ORC_A".toList, .char ' ', .ref "ORC_B".toList]

theorem cut_twoReferences : Cut "$\x7bORC_A\x7d $\x7bORC_B\x7d".toList twoReferences := by
  have hname : ∀ c : Char, isNamePart c = true → IsName ['O', 'R', 'C', '_', c] := fun c hc =>
    ⟨⟨'O', rfl, rfl⟩, by simp [hc]; decide⟩
  refine .ref (hname 'A' rfl) (.char ?_ (.ref (hname 'B' rfl) .done))
  intro name _ hstarts
  exact absurd (List.cons_prefix_cons.mp hstarts).1 (by decide)

/-- With plain values the result is that of one pass, in either order; with one of them missing it
is reported. -/
theorem two_references_one_pass :
    let text := "$\x7bORC_A\x7d $\x7bORC_B\x7d".toList
    let plain := fun name => if name = "ORC_A" then some "memory" else nested name
    let other := fun name => if name = "ORC_A" then none else nested name
    substitute plain text = .ok "memory deep".toList ∧
    substituteNames plain ["ORC_B".toList, "ORC_A".toList] text = .ok "memory deep".toList ∧
    substitute other text = .error (.unsetVariable "ORC_A") := by
  intro text plain other
  have hcut : Cut text twoReferences := cut_twoReferences
  have hset : ∀ name ∈ namesOf twoReferences, plain (String.ofList name) ≠ none := by decide
  have hspent : ∀ name ∈ namesOf twoReferences, Spent plain name
      (render (valuesOf plain (namesOf twoReferences)) twoReferences) := by
    intro name hname hx
    refine absurd hx ?_
    revert name
    decide
  obtain ⟨-, -, horders⟩ := ((substitute_one_pass plain text).2 _ hcut).2 hset
  have hresult := horders.mpr hspent
  refine ⟨?_, hresult _ (by simp [namesOf, twoReferences, or_comm]), ?_⟩
  · rw [substitute, hcut.references_eq]
    exact hresult _ fun _ => Iff.rfl
  · exact ((substitute_one_pass other text).2 _ hcut).1 [] _ _ rfl (by decide) (by simp)

/-- The value of the first variable is taken for a reference to the second one when the names are
taken from left to right, and is not the other way round. -/
theorem value_taken_for_reference :
    let text := "$\x7bORC_A\x7d $\x7bORC_B\x7d".toList
    Cut text twoReferences ∧
    (∀ name ∈ namesOf twoReferences, nested (String.ofList name) ≠ none) ∧
    render (valuesOf nested (namesOf twoReferences)) twoReferences
      = "$\x7bORC_B\x7d deep".toList ∧
    substitute nested text = .ok "deep deep".toList ∧
    substituteNames nested ["ORC_B".toList, "ORC_A".toList] text
      = .ok "$\x7bORC_B\x7d deep".toList :=
  ⟨cut_twoReferences, by decide, by decide, by decide, by decide⟩

end PriceOracle.Config
