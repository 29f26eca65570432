import PriceOracle.Source.Path
import PriceOracle.Proofs.Text.Digits
import PriceOracle.Proofs.Text.Pieces

/-!
# Paths name nodes

A node of a document is reached by steps: to the member of a name or to the item of an index.
Written one after the other with dots between them, the steps are a path, and `Json.navigate`
follows a path along the same steps.

* `Child`, `Reaches`: the nodes of a document, without reference to paths.
* `Writes`: the segments that stand for a step. A member has one, its name; an index has many, since
  a plus sign and zeros may be in front of its digits.
* `EndsAt`, `Leaves`: how a path can leave a document.
* `step_eq_some_iff`, `step_eq_none_iff`: one segment is followed to a child it stands for, and is
  not followed exactly where a path ends.
* `Neat`: paths without blanks around them, which can be put together.
* `navigate_names_nodes`: every node is named by its path, a path that leaves is not found, and
  paths compose.
-/

namespace PriceOracle.Json

/-! ## Nodes -/

/-- A step from a node to a child. Indices are machine words. -/
inductive PathStep where
  | member (name : String)
  | item (index : UInt64)

/-- A child of a node. Where a name is repeated, its last member is the child. -/
inductive Child : Json → PathStep → Json → Prop where
  | member {before after : List (String × Json)} {name : String} {value : Json}
      (hlast : name ∉ after.map Prod.fst) :
      Child (.obj (before ++ (name, value) :: after)) (.member name) value
  | item {items : List Json} {index : UInt64} {value : Json}
      (hthere : items[index.toNat]? = some value) : Child (.arr items) (.item index) value

/-- The node that steps lead to. -/
inductive Reaches : Json → List PathStep → Json → Prop where
  | here (node : Json) : Reaches node [] node
  | step {node child last : Json} {step : PathStep} {rest : List PathStep}
      (hchild : Child node step child) (hrest : Reaches child rest last) :
      Reaches node (step :: rest) last

/-- The segment that a step is rendered as. -/
def PathStep.text : PathStep → List Char
  | .member name => name.toList
  | .item index => Digits.ofNat index.toNat

/-- The path of steps. -/
def pathOf (steps : List PathStep) : String :=
  String.ofList (Text.join '.' (steps.map PathStep.text))

/-- No dot is in the name of a member. -/
def PathStep.DotFree : PathStep → Prop
  | .member name => '.' ∉ name.toList
  | .item _ => True

/-! ## Segments -/

/-- A segment with the digits of an index, after an optional plus sign. -/
def WritesIndex (segment : List Char) (index : UInt64) : Prop :=
  ∃ digits : List Char, digits ≠ [] ∧ (∀ c ∈ digits, c.isDigit = true) ∧
    (segment = digits ∨ segment = '+' :: digits) ∧ Digits.toNat digits = index.toNat

/-- A segment that stands for a step. -/
def Writes (segment : List Char) : PathStep → Prop
  | .member name => segment = name.toList
  | .item index => WritesIndex segment index

/-- A segment that cannot be followed from a node. -/
inductive EndsAt : Json → List Char → Prop where
  | missing {members : List (String × Json)} {name : String} (h : name ∉ members.map Prod.fst) :
      EndsAt (.obj members) name.toList
  | noIndex {items : List Json} {segment : List Char} (h : ∀ index, ¬WritesIndex segment index) :
      EndsAt (.arr items) segment
  | outOfRange {items : List Json} {segment : List Char} {index : UInt64}
      (hindex : WritesIndex segment index) (h : items.length ≤ index.toNat) :
      EndsAt (.arr items) segment
  | scalar {node : Json} {segment : List Char} (harr : ∀ items, node ≠ .arr items)
      (hobj : ∀ members, node ≠ .obj members) : EndsAt node segment

/-- The segments leave a document: they can be followed up to one that cannot. -/
inductive Leaves : Json → List (List Char) → Prop where
  | now {node : Json} {segment : List Char} {rest : List (List Char)} (h : EndsAt node segment) :
      Leaves node (segment :: rest)
  | later {node child : Json} {step : PathStep} {segment : List Char} {rest : List (List Char)}
      (hchild : Child node step child) (hwrites : Writes segment step) (hrest : Leaves child rest) :
      Leaves node (segment :: rest)

theorem PathStep.writes_text : ∀ step : PathStep, Writes step.text step
  | .member _ => rfl
  | .item index => ⟨Digits.ofNat index.toNat, Digits.ofNat_ne_nil _,
      fun _ => Digits.isDigit_of_mem_ofNat, .inl rfl, Digits.toNat_ofNat _⟩

theorem PathStep.DotFree.text {step : PathStep} (h : step.DotFree) : '.' ∉ step.text := by
  cases step with
  | member name => exact h
  | item index => exact fun hdot => absurd (Digits.isDigit_of_mem_ofNat hdot) (by decide)

/-! ## One segment -/

theorem lastMember_eq_none_iff {name : String} {members : List (String × Json)} :
    lastMember? name members = none ↔ name ∉ members.map Prod.fst := by
  induction members with
  | nil => simp [lastMember?]
  | cons m rest ih =>
    obtain ⟨key, value⟩ := m
    rw [lastMember?, List.map_cons, List.mem_cons, not_or, ← ih]
    cases lastMember? name rest <;> simp [eq_comm]

/-- The member of a name is the last one of that name. -/
theorem lastMember_eq_some_iff {name : String} {members : List (String × Json)} {value : Json} :
    lastMember? name members = some value ↔
      ∃ before after, members = before ++ (name, value) :: after ∧ name ∉ after.map Prod.fst := by
  constructor
  · intro h
    induction members with
    | nil => cases h
    | cons m rest ih =>
      obtain ⟨key, first⟩ := m
      rw [lastMember?] at h
      cases hrest : lastMember? name rest with
      | some later =>
        rw [hrest] at h
        obtain ⟨before, after, hsplit, hlast⟩ := ih (hrest.trans h)
        exact ⟨(key, first) :: before, after, by rw [hsplit, List.cons_append], hlast⟩
      | none =>
        simp only [hrest, Option.ite_none_right_eq_some, Option.some_inj] at h
        obtain ⟨rfl, rfl⟩ := h
        exact ⟨[], rest, rfl, lastMember_eq_none_iff.mp hrest⟩
  · rintro ⟨before, after, rfl, hlast⟩
    induction before with
    | nil => rw [List.nil_append, lastMember?, lastMember_eq_none_iff.mpr hlast, if_pos rfl]
    | cons m before ih => rw [List.cons_append, lastMember?, ih]

/-- An index is read from the segments that write it. -/
theorem index_eq_some_iff {segment : List Char} {n : Nat} :
    (Digits.bounded (2 ^ 64) segment).toOption = some n ↔
      ∃ index : UInt64, WritesIndex segment index ∧ index.toNat = n := by
  rw [Digits.bounded_eq_some_iff (by decide)]
  constructor
  · rintro ⟨digits, hne, hdigits, hsegment, hn, hlt⟩
    have hword : (UInt64.ofNat n).toNat = n := UInt64.toNat_ofNat_of_lt' hlt
    exact ⟨UInt64.ofNat n, ⟨digits, hne, hdigits, hsegment, hn.trans hword.symm⟩, hword⟩
  · rintro ⟨index, ⟨digits, hne, hdigits, hsegment, hn⟩, rfl⟩
    exact ⟨digits, hne, hdigits, hsegment, hn, index.toNat_lt⟩

/-- A segment is followed to a child that it stands for. -/
theorem step_eq_some_iff {node child : Json} {segment : List Char} :
    step? node segment = some child ↔ ∃ step, Writes segment step ∧ Child node step child := by
  constructor
  · intro h
    cases node with
    | obj members =>
      obtain ⟨before, after, rfl, hlast⟩ := lastMember_eq_some_iff.mp h
      exact ⟨.member (String.ofList segment), (String.toList_ofList).symm, .member hlast⟩
    | arr items =>
      obtain ⟨n, hindex, hthere⟩ := Option.bind_eq_some_iff.mp h
      obtain ⟨index, hwrites, rfl⟩ := index_eq_some_iff.mp hindex
      exact ⟨.item index, hwrites, .item hthere⟩
    | _ => cases h
  · rintro ⟨step, hwrites, hchild⟩
    cases hchild with
    | member hlast =>
      rw [Writes] at hwrites
      rw [hwrites, step?, String.ofList_toList]
      exact lastMember_eq_some_iff.mpr ⟨_, _, rfl, hlast⟩
    | item hthere =>
      exact Option.bind_eq_some_iff.mpr ⟨_, index_eq_some_iff.mpr ⟨_, hwrites, rfl⟩, hthere⟩

/-- A segment is not followed exactly where a path ends. -/
theorem step_eq_none_iff {node : Json} {segment : List Char} :
    step? node segment = none ↔ EndsAt node segment := by
  constructor
  · intro h
    cases node with
    | obj members =>
      rw [← String.toList_ofList (l := segment)]
      exact .missing (lastMember_eq_none_iff.mp h)
    | arr items =>
      rw [step?, Option.bind_eq_none_iff] at h
      -- An array fails a step on a segment that is no index, or on one past its end.
      by_cases hsome : ∃ index, WritesIndex segment index
      · obtain ⟨index, hwrites⟩ := hsome
        have hrange := h index.toNat (index_eq_some_iff.mpr ⟨index, hwrites, rfl⟩)
        exact .outOfRange hwrites (List.getElem?_eq_none_iff.mp hrange)
      · exact .noIndex (not_exists.mp hsome)
    | _ => exact .scalar (fun _ => nofun) (fun _ => nofun)
  · intro h
    cases h with
    | missing hmissing =>
      rw [step?, String.ofList_toList]
      exact lastMember_eq_none_iff.mpr hmissing
    | noIndex hnone =>
      rw [step?, Option.bind_eq_none_iff]
      intro n hn
      obtain ⟨index, hwrites, -⟩ := index_eq_some_iff.mp hn
      exact absurd hwrites (hnone index)
    | outOfRange hindex hrange =>
      rw [step?, index_eq_some_iff.mpr ⟨_, hindex, rfl⟩]
      exact List.getElem?_eq_none hrange
    | scalar harr hobj =>
      cases node with
      | obj members => exact absurd rfl (hobj members)
      | arr items => exact absurd rfl (harr items)
      | _ => rfl

/-! ## All segments -/

theorem walk_append (node : Json) (xs ys : List (List Char)) :
    walk? node (xs ++ ys) = (walk? node xs).bind (walk? · ys) := by
  induction xs generalizing node with
  | nil => rfl
  | cons segment xs ih =>
    rw [List.cons_append, walk?, walk?, Option.bind_assoc]
    exact congrArg _ (funext ih)

/-- The segments of steps are followed to the node that the steps reach. -/
theorem Reaches.walk {node last : Json} {steps : List PathStep} (h : Reaches node steps last) :
    walk? node (steps.map PathStep.text) = some last := by
  induction h with
  | here node => rfl
  | step hchild _ ih =>
    rw [List.map_cons, walk?, step_eq_some_iff.mpr ⟨_, PathStep.writes_text _, hchild⟩]
    exact ih

theorem walk_eq_none_iff {node : Json} {segments : List (List Char)} :
    walk? node segments = none ↔ Leaves node segments := by
  constructor
  · intro h
    induction segments generalizing node with
    | nil => cases h
    | cons segment rest ih =>
      rw [walk?] at h
      cases hstep : step? node segment with
      | none => exact .now (step_eq_none_iff.mp hstep)
      | some child =>
        obtain ⟨step, hwrites, hchild⟩ := step_eq_some_iff.mp hstep
        rw [hstep, Option.bind_some] at h
        exact .later hchild hwrites (ih h)
  · intro h
    induction h with
    | now h => rw [walk?, step_eq_none_iff.mpr h, Option.bind_none]
    | later hchild hwrites _ ih =>
      rw [walk?, step_eq_some_iff.mpr ⟨_, hwrites, hchild⟩, Option.bind_some, ih]

/-! ## Paths -/

theorem navigate_eq_ok_iff {document node : Json} {path : String} :
    navigate document path = .ok node ↔
      walk? document (segments (Text.trim path.toList)) = some node := by
  rw [navigate]
  split <;> simp_all

theorem navigate_eq_error_iff {document : Json} {path : String} {e : SourceError} :
    navigate document path = .error e ↔
      e = .pathNotFound (Text.trimmed path) ∧
        walk? document (segments (Text.trim path.toList)) = none := by
  cases h : walk? document (segments (Text.trim path.toList)) with
  | some node => simp [navigate, h]
  | none => simp [navigate, h, Text.trimmed, eq_comm]

/-- The segments of a path that pieces without dots make up. -/
theorem segments_join {pieces : List (List Char)} {path : List Char} (hpath : path ≠ [])
    (hne : pieces ≠ []) (hpieces : ∀ piece ∈ pieces, '.' ∉ piece)
    (hjoin : path = Text.join '.' pieces) : segments path = pieces := by
  rw [segments, List.isEmpty_eq_false_iff.mpr hpath, hjoin, Text.splitOn_join hne hpieces]
  rfl

theorem segments_append {xs ys : List Char} (hxs : xs ≠ []) (hys : ys ≠ []) :
    segments (xs ++ '.' :: ys) = segments xs ++ segments ys := by
  simp [segments, hxs, hys, Text.splitOn_append]

/-- A path that is not empty and has no blanks around it. -/
structure Neat (path : String) : Prop where
  nonempty : path ≠ ""
  trimmed : Text.trimmed path = path

namespace Neat

variable {path p q : String}

theorem toList_ne_nil (h : Neat path) : path.toList ≠ [] :=
  fun hnil => h.nonempty (String.toList_eq_nil_iff.mp hnil)

theorem trim_eq (h : Neat path) : Text.trim path.toList = path.toList := by
  have htrimmed := h.trimmed
  rw [Text.trimmed] at htrimmed
  rw [← String.toList_inj, String.toList_ofList] at htrimmed
  exact htrimmed

/-- Two paths with a dot between them need no trimming either. -/
theorem trim_append (hp : Neat p) (hq : Neat q) :
    Text.trim (p ++ "." ++ q).toList = p.toList ++ '.' :: q.toList := by
  have hchars : (p ++ "." ++ q).toList = p.toList ++ (['.'] ++ q.toList) := by
    rw [String.toList_append, String.toList_append, List.append_assoc]
    rfl
  rw [hchars]
  exact Text.trim_append hp.trim_eq hq.trim_eq hp.toList_ne_nil hq.toList_ne_nil ['.']

end Neat

/-- The path of steps leads to the node that they reach. -/
theorem Reaches.navigate {document node : Json} {steps : List PathStep}
    (h : Reaches document steps node) (hdots : ∀ step ∈ steps, step.DotFree)
    (hneat : Neat (pathOf steps)) : navigate document (pathOf steps) = .ok node := by
  have hchars : (pathOf steps).toList = Text.join '.' (steps.map PathStep.text) :=
    String.toList_ofList
  have hpieces : steps.map PathStep.text ≠ [] := by
    intro hnil
    rw [hnil] at hchars
    exact hneat.toList_ne_nil hchars
  have hfree : ∀ piece ∈ steps.map PathStep.text, '.' ∉ piece := by
    intro piece hpiece
    obtain ⟨step, hstep, rfl⟩ := List.mem_map.mp hpiece
    exact (hdots step hstep).text
  rw [navigate_eq_ok_iff, hneat.trim_eq, segments_join hneat.toList_ne_nil hpieces hfree hchars]
  exact h.walk

/-- A path fails exactly when it leaves the document, and then it is reported without blanks. -/
theorem navigate_eq_error_iff_leaves {document : Json} {path : String} {pieces : List (List Char)}
    (hpieces : pieces ≠ []) (hfree : ∀ piece ∈ pieces, '.' ∉ piece)
    (hjoin : Text.trimmed path = String.ofList (Text.join '.' pieces))
    (hne : Text.trimmed path ≠ "") (e : SourceError) :
    navigate document path = .error e ↔
      e = .pathNotFound (Text.trimmed path) ∧ Leaves document pieces := by
  have hchars : Text.trim path.toList = Text.join '.' pieces := by
    rw [← String.ofList_inj]
    exact hjoin
  have hpath : Text.trim path.toList ≠ [] := fun hnil => hne (by rw [Text.trimmed, hnil])
  rw [navigate_eq_error_iff, segments_join hpath hpieces hfree hchars, walk_eq_none_iff]

/-- A path goes on from a node as the rest of it does. -/
theorem navigate_append {document node : Json} {p q : String} (hp : Neat p) (hq : Neat q) :
    navigate document (p ++ "." ++ q) = .ok node ↔
      ∃ inner, navigate document p = .ok inner ∧ navigate inner q = .ok node := by
  simp only [navigate_eq_ok_iff, hp.trim_append hq, hp.trim_eq, hq.trim_eq,
    segments_append hp.toList_ne_nil hq.toList_ne_nil, walk_append, Option.bind_eq_some_iff]

/-- Every node of a document is named by its path. A path is not found exactly when it leaves the
document. Paths compose. -/
theorem navigate_names_nodes :
    (∀ (document node : Json) (steps : List PathStep), Reaches document steps node →
      (∀ step ∈ steps, step.DotFree) → Neat (pathOf steps) →
      navigate document (pathOf steps) = .ok node) ∧
    (∀ (document : Json) (path : String) (pieces : List (List Char)), pieces ≠ [] →
      (∀ piece ∈ pieces, '.' ∉ piece) →
      Text.trimmed path = String.ofList (Text.join '.' pieces) → Text.trimmed path ≠ "" →
      ∀ e : SourceError, navigate document path = .error e ↔
        e = .pathNotFound (Text.trimmed path) ∧ Leaves document pieces) ∧
    ∀ (document node : Json) (p q : String), Neat p → Neat q →
      (navigate document (p ++ "." ++ q) = .ok node ↔
        ∃ inner, navigate document p = .ok inner ∧ navigate inner q = .ok node) := by
  refine ⟨?_, ?_, ?_⟩
  · intro document node steps hreaches hdots hneat
    exact hreaches.navigate hdots hneat
  · intro document path pieces hpieces hfree hjoin hne e
    exact navigate_eq_error_iff_leaves hpieces hfree hjoin hne e
  · intro document node p q hp hq
    exact navigate_append hp hq

/-- A document with a member whose name is a number next to an array. -/
def quotes : Json :=
  .obj [("0", .obj [("usd", .int 1)]), ("prices", .arr [.obj [("usd", .int 2)], .str "3"])]

/-- The second price is a node of its own path, has no member, and is found from `prices`. -/
theorem quotes_navigate :
    Reaches quotes [.member "prices", .item 1] (.str "3") ∧
    pathOf [.member "prices", .item 1] = "prices.1" ∧
    navigate quotes "prices.1" = .ok (.str "3") ∧
    Leaves quotes ["prices".toList, "+01".toList, "usd".toList] ∧
    navigate quotes " prices.+01.usd" = .error (.pathNotFound "prices.+01.usd") ∧
    (navigate quotes ("prices" ++ "." ++ "1") = .ok (.str "3") ↔
      ∃ inner, navigate quotes "prices" = .ok inner ∧ navigate inner "1" = .ok (.str "3")) := by
  have hprices : Child (.obj ([("0", .obj [("usd", .int 1)])] ++
      ("prices", .arr [.obj [("usd", .int 2)], .str "3"]) :: [])) (.member "prices") _ :=
    .member (by simp)
  have hitem : Child (.arr [.obj [("usd", .int 2)], .str "3"]) (.item 1) (.str "3") := .item rfl
  have hreaches := Reaches.step hprices (.step hitem (.here _))
  have hends : EndsAt (.str "3") "usd".toList := .scalar (fun _ => nofun) fun _ => nofun
  have hwrites : Writes "+01".toList (.item 1) :=
    ⟨['0', '1'], List.cons_ne_nil _ _, List.all_eq_true.mp rfl, .inr rfl, rfl⟩
  have hleaves : Leaves quotes ["prices".toList, "+01".toList, "usd".toList] :=
    .later hprices rfl (.later hitem hwrites (.now hends))
  refine ⟨hreaches, by decide, ?_, hleaves, ?_, ?_⟩
  · exact navigate_names_nodes.1 _ _ _ hreaches (by simp [PathStep.DotFree])
      ⟨by decide, by decide⟩
  · exact (navigate_names_nodes.2.1 quotes " prices.+01.usd" _ (by decide) (by decide)
      (by decide) (by decide) _).mpr ⟨by decide, hleaves⟩
  · exact navigate_names_nodes.2.2 _ _ _ _ ⟨by decide, by decide⟩ ⟨by decide, by decide⟩

end PriceOracle.Json
