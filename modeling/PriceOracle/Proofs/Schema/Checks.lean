import Mathlib.Data.List.Basic
import PriceOracle.Schema

/-!
# What the checks of a schema find

Each check of `PriceOracle.Schema` goes through what it is given in order and stops at the first
fault. The lemmas here say when it finds none, and where a fault that it finds comes from, so that
later proofs need not go through the checks again.

* `Kind.induct`: induction over kinds, with a hypothesis for every field of a table.
* `Field.check`: the check of one field that is there.
* `checkArray_eq_ok_iff`, `checkArray_eq_error`, `checkTable_eq_ok_iff`, `checkTable_eq_error`: the
  check of an array and of a table, by those of what is inside.
* `checkArray_congr`, `checkTable_congr`: only what is inside counts, and of a table only the
  members that are declared.
-/

namespace PriceOracle.Schema

variable {α β : Type} {place : Place} {fault : Fault} {s : Setting}

/-! ## Kinds -/

/-- Induction over kinds: one case for an array, and one for a table with all that it declares. -/
@[elab_as_elim]
theorem Kind.induct {motive : Kind → Prop} (string : motive .string)
    (integer : ∀ min max, motive (.integer min max)) (boolean : motive .boolean)
    (url : motive .url) (address : motive .address)
    (array : ∀ item, motive item → motive (.array item))
    (table : ∀ required optional, (∀ f ∈ required ++ optional, motive (Field.kind f)) →
      motive (.table required optional)) (kind : Kind) : motive kind := by
  refine Kind.rec (motive_1 := motive) (motive_2 := fun f => motive f.kind)
    (motive_3 := fun fields => ∀ f ∈ fields, motive f.kind) string integer boolean url address
    array ?_ ?_ ?_ ?_ kind
  · intro required optional hrequired hoptional
    exact table required optional (List.forall_mem_append.mpr ⟨hrequired, hoptional⟩)
  · intro name kind validator hkind
    exact hkind
  · exact List.forall_mem_nil _
  · intro f fields hf hfields
    exact List.forall_mem_cons.mpr ⟨hf, hfields⟩

/-- What a kind declares of the members of a table. -/
def Kind.fields : Kind → List Field
  | .table required optional => required ++ optional
  | _ => []

/-- The kind of the settings that a schema describes. -/
def kind (schema : Schema) : Kind := .table schema.required schema.optional

/-- The check of a field that is there. -/
def Field.check (f : Field) (place : Place) (s : Setting) : Except Fault Unit := do
  checkKind f.kind (place ++ [.name f.name]) s
  checkValidator (place ++ [.name f.name]) f.validator s

/-! ## Types -/

theorem asString_eq_some_iff {text : String} : s.asString? = some text ↔ s = .string text := by
  cases s <;> simp [Setting.asString?]

theorem asInteger_eq_some_iff {n : Int} : s.asInteger? = some n ↔ s = .integer n := by
  cases s <;> simp [Setting.asInteger?]

theorem asTable_eq_some_iff {members : List (String × Setting)} :
    s.asTable? = some members ↔ s = .table members := by
  cases s <;> simp [Setting.asTable?]

/-! ## One check after the other -/

/-- Two checks one after the other pass if both do. -/
theorem then_eq_ok_iff {first : Except Fault Unit} {next : Except Fault β} {b : β} :
    (first >>= fun _ => next) = .ok b ↔ first = .ok () ∧ next = .ok b := by
  cases first <;> simp [bind, Except.bind]

/-- The first fault counts: a second check is made only where the first passed. -/
theorem then_eq_error_iff {first : Except Fault Unit} {next : Except Fault β} :
    (first >>= fun _ => next) = .error fault ↔
      first = .error fault ∨ first = .ok () ∧ next = .error fault := by
  cases first <;> simp [bind, Except.bind]

/-- A demand passes exactly where it is met. -/
theorem demand_eq_ok_iff {p : Prop} [Decidable p] {e : Fault} :
    (if p then .ok () else .error e : Except Fault Unit) = .ok () ↔ p := by
  split <;> simp [*]

/-- A demand that is not met is reported by its own fault. -/
theorem demand_eq_error_iff {p : Prop} [Decidable p] {e : Fault} :
    (if p then .ok () else .error e : Except Fault Unit) = .error fault ↔ ¬p ∧ fault = e := by
  split <;> simp [*, eq_comm]

variable {expected : String} {get? : Setting → Option α} {next : α → Except Fault β}

/-- A value is looked into only where it has the expected type. -/
theorem expect_bind_eq_ok_iff {b : β} :
    (expect place expected get? s >>= next) = .ok b ↔ ∃ a, get? s = some a ∧ next a = .ok b := by
  cases h : get? s <;> simp [expect, h, bind, Except.bind]

/-- A value of another type is reported with the type that it has. -/
theorem expect_bind_eq_error_iff :
    (expect place expected get? s >>= next) = .error fault ↔
      (get? s = none ∧ fault = .mismatch place expected s.typeName) ∨
        ∃ a, get? s = some a ∧ next a = .error fault := by
  cases h : get? s <;> simp [expect, h, bind, Except.bind, eq_comm]

/-! ## Validators and bounds -/

/-- Without a validator there is nothing left to check. -/
theorem checkValidator_eq_ok_iff {validator : Option Validator} :
    checkValidator place validator s = .ok () ↔ ∀ check ∈ validator, check s = .ok () := by
  cases validator with
  | none => simp [checkValidator]
  | some check => cases h : check s <;> simp [checkValidator, h]

/-- The text of a fault is the message of the validator. -/
theorem checkValidator_eq_error_iff {validator : Option Validator} :
    checkValidator place validator s = .error fault ↔
      ∃ check message, validator = some check ∧ check s = .error message ∧
        fault = .invalid place message := by
  cases validator with
  | none => simp [checkValidator]
  | some check => cases h : check s <;> simp [checkValidator, h, eq_comm]

/-- The bound that an integer is beyond, in words. -/
inductive Beyond (n : Int) : Option Int → Option Int → String → Prop where
  | below {least : Int} {max : Option Int} (h : n < least) :
      Beyond n (some least) max s!"Value {n} is less than minimum {least}"
  | above {min : Option Int} {most : Int} (h : most < n) :
      Beyond n min (some most) s!"Value {n} is greater than maximum {most}"

/-- An integer passes between the bounds that are given. -/
theorem checkBounds_eq_ok_iff {min max : Option Int} {n : Int} :
    checkBounds place min max n = .ok () ↔ (∀ m ∈ min, m ≤ n) ∧ ∀ m ∈ max, n ≤ m := by
  cases min with
  | none =>
    cases max with
    | none => simp [checkBounds, pure, Except.pure]
    | some most =>
      by_cases h : most < n
      · simp [checkBounds, h]
      · simp [checkBounds, h, Int.not_lt.mp h, pure, Except.pure]
  | some least =>
    by_cases hleast : n < least
    · have hnot : ¬least ≤ n := Int.not_le.mpr hleast
      simp [checkBounds, hleast, hnot, bind, Except.bind]
    · have hle := Int.not_lt.mp hleast
      cases max with
      | none => simp [checkBounds, hleast, hle, pure, Except.pure]
      | some most =>
        by_cases h : most < n
        · simp [checkBounds, hleast, h]
        · simp [checkBounds, hleast, hle, h, Int.not_lt.mp h, pure, Except.pure]

/-- A bound that is missed is reported as such. -/
theorem checkBounds_eq_error {min max : Option Int} {n : Int}
    (h : checkBounds place min max n = .error fault) :
    ∃ message, Beyond n min max message ∧ fault = .invalid place message := by
  have habove : ∀ most, (if most < n then .error (.invalid place
      s!"Value {n} is greater than maximum {most}") else .ok () : Except Fault Unit) =
      .error fault → ∃ message, Beyond n min (some most) message ∧
        fault = .invalid place message := by
    intro most h
    by_cases hmost : most < n
    · rw [if_pos hmost] at h
      exact ⟨_, .above hmost, (Except.error.inj h).symm⟩
    · rw [if_neg hmost] at h
      cases h
  cases min with
  | none =>
    cases max with
    | none => cases h
    | some most => exact habove most h
  | some least =>
    by_cases hleast : n < least
    · simp only [checkBounds, if_pos hleast] at h
      exact ⟨_, .below hleast, (Except.error.inj h).symm⟩
    · simp only [checkBounds, if_neg hleast] at h
      cases max with
      | none => cases h
      | some most => exact habove most h

/-! ## Arrays -/

section Items

variable {check : Place → Setting → Except Fault Unit} {i : Nat} {items : List Setting}

/-- Items pass if each of them does, under its own index. -/
theorem checkItems_eq_ok_iff : checkItems check place i items = .ok () ↔
    ∀ k v, items[k]? = some v → check (place ++ [.index (i + k)]) v = .ok () := by
  induction items generalizing i with
  | nil => simp [checkItems]
  | cons first rest ih =>
    rw [checkItems, then_eq_ok_iff, ih]
    constructor
    · rintro ⟨hfirst, hrest⟩ k v hv
      cases k with
      | zero =>
        obtain rfl : first = v := Option.some.inj hv
        exact hfirst
      | succ k => exact Nat.succ_add_eq_add_succ i k ▸ hrest k v hv
    · intro h
      refine ⟨h 0 first rfl, fun k v hv => ?_⟩
      exact Nat.succ_add_eq_add_succ i k ▸ h (k + 1) v hv

/-- A fault among items is a fault of one of them. -/
theorem checkItems_eq_error (h : checkItems check place i items = .error fault) :
    ∃ k v, items[k]? = some v ∧ check (place ++ [.index (i + k)]) v = .error fault := by
  induction items generalizing i with
  | nil => cases h
  | cons first rest ih =>
    rw [checkItems, then_eq_error_iff] at h
    obtain hfirst | ⟨-, hrest⟩ := h
    · exact ⟨0, first, rfl, hfirst⟩
    · obtain ⟨k, v, hv, hcheck⟩ := ih hrest
      exact ⟨k + 1, v, hv, Nat.succ_add_eq_add_succ i k ▸ hcheck⟩

/-- Items are checked from the first to the last, and their indices are counted on. -/
theorem checkItems_append {before after : List Setting} :
    checkItems check place i (before ++ after) = (checkItems check place i before >>= fun _ =>
      checkItems check place (i + before.length) after) := by
  induction before generalizing i with
  | nil => rfl
  | cons first rest ih =>
    rw [List.cons_append, checkItems, checkItems, ih, List.length_cons, bind_assoc,
      Nat.succ_add_eq_add_succ]

end Items

variable {item : Kind}

/-- An array passes if each of its items does. -/
theorem checkArray_eq_ok_iff : checkKind (.array item) place s = .ok () ↔
    ∃ items, s = .array items ∧
      ∀ i v, items[i]? = some v → checkKind item (place ++ [.index i]) v = .ok () := by
  rw [checkKind, expect_bind_eq_ok_iff]
  cases s <;> simp [checkItems_eq_ok_iff]

/-- A fault of an array is that it is none, or one of an item. -/
theorem checkArray_eq_error (h : checkKind (.array item) place s = .error fault) :
    ((∀ items, s ≠ .array items) ∧ fault = .mismatch place "array" s.typeName) ∨
      ∃ items i v, s = .array items ∧ items[i]? = some v ∧
        checkKind item (place ++ [.index i]) v = .error fault := by
  rw [checkKind, expect_bind_eq_error_iff] at h
  obtain ⟨hnone, hfault⟩ | ⟨items, hsome, hitems⟩ := h
  · refine .inl ⟨fun items hs => ?_, hfault⟩
    rw [hs] at hnone
    cases hnone
  · obtain ⟨i, v, hv, hcheck⟩ := checkItems_eq_error hitems
    rw [Nat.zero_add] at hcheck
    cases s with
    | array items' =>
      obtain rfl : items' = items := Option.some.inj hsome
      exact .inr ⟨items', i, v, rfl, hv, hcheck⟩
    | _ => cases hsome

/-! ## Tables -/

/-- A field passes if its kind does, and its validator after that. -/
theorem Field.check_eq_ok_iff {f : Field} : f.check place s = .ok () ↔
    checkKind f.kind (place ++ [.name f.name]) s = .ok () ∧
      ∀ check ∈ f.validator, check s = .ok () := by
  rw [Field.check, then_eq_ok_iff, checkValidator_eq_ok_iff]

variable {members : List (String × Setting)}

/-- Required fields are checked in the order of their declaration; one that is missing ends it. -/
theorem checkRequired_cons (f : Field) (rest : List Field) :
    checkRequired (f :: rest) place members = ((members.lookup f.name).map (f.check place)).elim
      (.error (.missing (place ++ [.name f.name])))
      fun checked => checked >>= fun _ => checkRequired rest place members := by
  obtain ⟨name, kind, validator⟩ := f
  rw [checkRequired, Field.name]
  cases members.lookup name with
  | none => rfl
  | some v => exact (bind_assoc _ _ _).symm

/-- Optional fields are checked in the order of their declaration; one that is missing is passed
over. -/
theorem checkOptional_cons (f : Field) (rest : List Field) :
    checkOptional (f :: rest) place members = ((members.lookup f.name).map (f.check place)).elim
      (checkOptional rest place members)
      fun checked => checked >>= fun _ => checkOptional rest place members := by
  obtain ⟨name, kind, validator⟩ := f
  rw [checkOptional, Field.name]
  cases members.lookup name with
  | none => rfl
  | some v => exact (bind_assoc _ _ _).symm

/-- Required fields pass if all of them are there and pass. -/
theorem checkRequired_eq_ok_iff {fields : List Field} :
    checkRequired fields place members = .ok () ↔
      ∀ f ∈ fields, ∃ v, members.lookup f.name = some v ∧ f.check place v = .ok () := by
  induction fields with
  | nil => simp [checkRequired]
  | cons f rest ih =>
    rw [checkRequired_cons, List.forall_mem_cons, ← ih]
    cases members.lookup f.name <;> simp [then_eq_ok_iff]

/-- Optional fields pass if those that are there do. -/
theorem checkOptional_eq_ok_iff {fields : List Field} :
    checkOptional fields place members = .ok () ↔
      ∀ f ∈ fields, ∀ v, members.lookup f.name = some v → f.check place v = .ok () := by
  induction fields with
  | nil => simp [checkOptional]
  | cons f rest ih =>
    rw [checkOptional_cons, List.forall_mem_cons, ← ih]
    cases members.lookup f.name <;> simp [then_eq_ok_iff]

/-- A fault among required fields is that one is missing, or a fault of one. -/
theorem checkRequired_eq_error {fields : List Field}
    (h : checkRequired fields place members = .error fault) :
    ∃ f ∈ fields, (members.lookup f.name = none ∧ fault = .missing (place ++ [.name f.name])) ∨
      ∃ v, members.lookup f.name = some v ∧ f.check place v = .error fault := by
  induction fields with
  | nil => cases h
  | cons f rest ih =>
    rw [checkRequired_cons] at h
    cases hv : members.lookup f.name with
    | none =>
      rw [hv] at h
      exact ⟨f, List.mem_cons_self, .inl ⟨hv, (Except.error.inj h).symm⟩⟩
    | some v =>
      rw [hv, Option.map_some, Option.elim_some, then_eq_error_iff] at h
      obtain hcheck | ⟨-, hrest⟩ := h
      · exact ⟨f, List.mem_cons_self, .inr ⟨v, hv, hcheck⟩⟩
      · obtain ⟨g, hg, hfault⟩ := ih hrest
        exact ⟨g, List.mem_cons_of_mem f hg, hfault⟩

/-- A fault among optional fields is one of a field that is there. -/
theorem checkOptional_eq_error {fields : List Field}
    (h : checkOptional fields place members = .error fault) :
    ∃ f ∈ fields, ∃ v, members.lookup f.name = some v ∧ f.check place v = .error fault := by
  induction fields with
  | nil => cases h
  | cons f rest ih =>
    have hlater (hrest : checkOptional rest place members = .error fault) :
        ∃ g ∈ f :: rest, ∃ v, members.lookup g.name = some v ∧ g.check place v = .error fault := by
      obtain ⟨g, hg, hfault⟩ := ih hrest
      exact ⟨g, List.mem_cons_of_mem f hg, hfault⟩
    rw [checkOptional_cons] at h
    cases hv : members.lookup f.name with
    | none =>
      rw [hv] at h
      exact hlater h
    | some v =>
      rw [hv, Option.map_some, Option.elim_some, then_eq_error_iff] at h
      obtain hcheck | ⟨-, hrest⟩ := h
      · exact ⟨f, List.mem_cons_self, v, hv, hcheck⟩
      · exact hlater hrest

variable {required optional : List Field}

/-- A table passes if the required fields are there, and all declared fields that are there pass. -/
theorem checkTable_eq_ok_iff : checkKind (.table required optional) place s = .ok () ↔
    ∃ members, s = .table members ∧ (∀ f ∈ required, members.lookup f.name ≠ none) ∧
      ∀ f ∈ required ++ optional, ∀ v, members.lookup f.name = some v →
        f.check place v = .ok () := by
  rw [checkKind, expect_bind_eq_ok_iff]
  refine exists_congr fun members => and_congr asTable_eq_some_iff ?_
  rw [then_eq_ok_iff, checkRequired_eq_ok_iff, checkOptional_eq_ok_iff, List.forall_mem_append,
    ← and_assoc]
  refine and_congr_left fun _ => ?_
  rw [← forall₂_and]
  refine forall₂_congr fun f _ => ?_
  cases members.lookup f.name <;> simp

/-- A fault of a table is that it is none, that a required field is missing, or one of a declared
field that is there. What is no table is reported one name too deep. -/
theorem checkTable_eq_error (h : checkKind (.table required optional) place s = .error fault) :
    (s.asTable? = none ∧ fault = .mismatch (place ++ [.name "root"]) "table" s.typeName) ∨
      ∃ members, s = .table members ∧
        ((∃ f ∈ required, members.lookup f.name = none ∧
            fault = .missing (place ++ [.name f.name])) ∨
          ∃ f ∈ required ++ optional, ∃ v, members.lookup f.name = some v ∧
            f.check place v = .error fault) := by
  rw [checkKind, expect_bind_eq_error_iff] at h
  refine h.imp_right ?_
  rintro ⟨members, hs, hmembers⟩
  refine ⟨members, asTable_eq_some_iff.mp hs, ?_⟩
  rw [then_eq_error_iff] at hmembers
  obtain hrequired | ⟨-, hoptional⟩ := hmembers
  · obtain ⟨f, hf, hmissing | hcheck⟩ := checkRequired_eq_error hrequired
    · exact .inl ⟨f, hf, hmissing⟩
    · exact .inr ⟨f, List.mem_append_left optional hf, hcheck⟩
  · obtain ⟨f, hf, hcheck⟩ := checkOptional_eq_error hoptional
    exact .inr ⟨f, List.mem_append_right required hf, hcheck⟩

/-! ## What a check does not look at -/

variable {members' : List (String × Setting)} {fields : List Field}

/-- Of required fields only what their checks find counts. -/
theorem checkRequired_congr (h : ∀ f ∈ fields,
    (members.lookup f.name).map (f.check place) = (members'.lookup f.name).map (f.check place)) :
    checkRequired fields place members = checkRequired fields place members' := by
  induction fields with
  | nil => rfl
  | cons f rest ih =>
    rw [List.forall_mem_cons] at h
    rw [checkRequired_cons, checkRequired_cons, h.1, ih h.2]

/-- Of optional fields only what their checks find counts. -/
theorem checkOptional_congr (h : ∀ f ∈ fields,
    (members.lookup f.name).map (f.check place) = (members'.lookup f.name).map (f.check place)) :
    checkOptional fields place members = checkOptional fields place members' := by
  induction fields with
  | nil => rfl
  | cons f rest ih =>
    rw [List.forall_mem_cons] at h
    rw [checkOptional_cons, checkOptional_cons, h.1, ih h.2]

/-- Of the members of a table, only the outcomes of the checks of declared ones count. -/
theorem checkTable_congr (h : ∀ f ∈ required ++ optional,
    (members.lookup f.name).map (f.check place) = (members'.lookup f.name).map (f.check place)) :
    checkKind (.table required optional) place (.table members) =
      checkKind (.table required optional) place (.table members') := by
  rw [List.forall_mem_append] at h
  have hrequired := checkRequired_congr h.1
  have hoptional := checkOptional_congr h.2
  simp only [checkKind, expect, Setting.asTable?, bind, Except.bind, hrequired, hoptional]

/-- Of an item of an array, only the outcome of its check counts. -/
theorem checkArray_congr {before after : List Setting} {v v' : Setting}
    (h : ∀ i, checkKind item (place ++ [.index i]) v = checkKind item (place ++ [.index i]) v') :
    checkKind (.array item) place (.array (before ++ v :: after)) =
      checkKind (.array item) place (.array (before ++ v' :: after)) := by
  simp only [checkKind, expect, bind, Except.bind]
  rw [checkItems_append, checkItems_append, checkItems, checkItems, h]

end PriceOracle.Schema
