import PriceOracle.Proofs.Schema.Conformance
import PriceOracle.Proofs.Schema.Places

/-!
# Where the faults of settings are

A fault is reported with the path of the place where it is. `Asks` says what a schema asks for at a
place, and `Finding` what is there where a check finds a fault.

* `finding_of_error`: every fault that a check finds is a finding, at any depth.
* `Finding.ofText_field`: the path of a finding is read back as its place.
* `faults_lead`: the path of a fault leads to what is wrong, unless a table is asked for and
  something else is there. The path of such a fault has a name `root` behind it that leads nowhere.
-/

namespace PriceOracle.Schema

/-- The place that a fault carries. -/
def Fault.place : Fault → Place
  | .missing place | .invalid place _ | .mismatch place _ _ => place

/-- The path that a fault is reported with. -/
def Fault.field (fault : Fault) : String := fault.place.text

/-! ## What is asked for at a place -/

/-- What a kind asks for at a place inside of it, and the validator of the field there. -/
inductive Asks (root : Kind) : Place → Kind → Option Validator → Prop where
  | here : Asks root [] root none
  | field {place : Place} {required optional : List Field} {validator : Option Validator}
      {f : Field} (h : Asks root place (.table required optional) validator)
      (hf : f ∈ required ++ optional) :
      Asks root (place ++ [.name f.name]) f.kind f.validator
  | item {place : Place} {item : Kind} {validator : Option Validator}
      (h : Asks root place (.array item) validator) (i : Nat) :
      Asks root (place ++ [.index i]) item none

mutual

/-- The names of all fields inside a kind, at any depth. -/
def Kind.names : Kind → List String
  | .array item => item.names
  | .table required optional => namesOf required ++ namesOf optional
  | _ => []

/-- The names of fields and of all fields inside them. -/
def namesOf : List Field → List String
  | [] => []
  | .mk name kind _ :: rest => name :: (kind.names ++ namesOf rest)

end

variable {root kind : Kind} {place : Place} {validator : Option Validator} {config s : Setting}
  {fault : Fault} {f : Field}

theorem mem_namesOf {fields : List Field} (hf : f ∈ fields) :
    f.name ∈ namesOf fields ∧ ∀ n ∈ f.kind.names, n ∈ namesOf fields := by
  induction fields with
  | nil => cases hf
  | cons g rest ih =>
    obtain ⟨name, kind, validator⟩ := g
    rw [namesOf]
    rcases List.mem_cons.mp hf with rfl | hrest
    · exact ⟨List.mem_cons_self, fun n hn => List.mem_cons_of_mem _ (List.mem_append_left _ hn)⟩
    · have hlater {n : String} (hn : n ∈ namesOf rest) : n ∈ name :: (kind.names ++ namesOf rest) :=
        List.mem_cons_of_mem _ (List.mem_append_right _ hn)
      exact ⟨hlater (ih hrest).1, fun n hn => hlater ((ih hrest).2 n hn)⟩

theorem namesOf_append (fields fields' : List Field) :
    namesOf (fields ++ fields') = namesOf fields ++ namesOf fields' := by
  induction fields with
  | nil => rfl
  | cons g rest ih =>
    obtain ⟨name, kind, validator⟩ := g
    simp [namesOf, ih, List.append_assoc]

namespace Asks

/-- Whatever is inside has names of the whole only. -/
theorem names_subset (h : Asks root place kind validator) : ∀ n ∈ kind.names, n ∈ root.names := by
  induction h with
  | here => exact fun n hn => hn
  | field _ hf ih =>
    intro n hn
    refine ih n ?_
    rw [Kind.names, ← namesOf_append]
    exact (mem_namesOf hf).2 n hn
  | item _ _ ih => exact ih

theorem name_mem {required optional : List Field}
    (h : Asks root place (.table required optional) validator) (hf : f ∈ required ++ optional) :
    f.name ∈ root.names := by
  refine h.names_subset _ ?_
  rw [Kind.names, ← namesOf_append]
  exact (mem_namesOf hf).1

/-- The names on the way to a place are names of the whole. -/
theorem names_of_place (h : Asks root place kind validator) :
    ∀ n, .name n ∈ place → n ∈ root.names := by
  induction h with
  | here => exact fun n hn => absurd hn List.not_mem_nil
  | field h hf ih =>
    intro n hn
    rcases List.mem_append.mp hn with hn | hn
    · exact ih n hn
    · obtain ⟨rfl⟩ := List.mem_singleton.mp hn
      exact h.name_mem hf
  | item _ _ ih =>
    intro n hn
    rcases List.mem_append.mp hn with hn | hn
    · exact ih n hn
    · cases List.mem_singleton.mp hn

/-- A place inside a table starts with a name. -/
theorem starts {schema : Schema} (h : Asks schema.kind place kind validator) :
    (place = [] ∧ kind = schema.kind ∧ validator = none) ∨
      ∃ name rest, place = .name name :: rest := by
  induction h with
  | here => exact .inl ⟨rfl, rfl, rfl⟩
  | field _ _ ih =>
    obtain ⟨rfl, -, -⟩ | ⟨name, rest, rfl⟩ := ih
    · exact .inr ⟨_, [], rfl⟩
    · exact .inr ⟨name, _, List.cons_append⟩
  | item _ i ih =>
    obtain ⟨-, hkind, -⟩ | ⟨name, rest, rfl⟩ := ih
    · cases hkind
    · exact .inr ⟨name, _, List.cons_append⟩

end Asks

/-! ## What is found at a place -/

/-- A value of the right type breaks a bound or a form, or its validator refuses it; in words. -/
inductive Breaks : Kind → Option Validator → Setting → String → Prop where
  | bound {min max : Option Int} {validator : Option Validator} {n : Int} {message : String}
      (h : Beyond n min max message) : Breaks (.integer min max) validator (.integer n) message
  | url {validator : Option Validator} {text : String} (h : ¬IsWebUrl text) :
      Breaks .url validator (.string text) s!"'{text}' is not an http(s) URL"
  | address {validator : Option Validator} {text : String} (h : ¬IsAddress text) :
      Breaks .address validator (.string text) s!"'{text}' is not a 20-byte hex address"
  | validator {kind : Kind} {check : Validator} {s : Setting} {message : String}
      (h : check s = .error message) : Breaks kind (some check) s message

/-- What is at the place of a fault. -/
inductive Finding (root : Kind) (config : Setting) : Fault → Prop where
  | missing {place : Place} {required optional : List Field} {validator : Option Validator}
      {members : List (String × Setting)} {f : Field}
      (hasks : Asks root place (.table required optional) validator) (hf : f ∈ required)
      (hfind : place.value? config = some (.table members))
      (hlacks : members.lookup f.name = none) :
      Finding root config (.missing (place ++ [.name f.name]))
  | invalid {place : Place} {kind : Kind} {validator : Option Validator} {s : Setting}
      {message : String} (hasks : Asks root place kind validator)
      (hfind : place.value? config = some s) (hbreaks : Breaks kind validator s message) :
      Finding root config (.invalid place message)
  | mismatch {place : Place} {kind : Kind} {validator : Option Validator} {s : Setting}
      {expected : String} (hasks : Asks root place kind validator)
      (htable : ∀ required optional, kind ≠ .table required optional)
      (hfind : place.value? config = some s) (hexpected : expected ≠ "table") :
      Finding root config (.mismatch place expected s.typeName)
  | noTable {place : Place} {required optional : List Field} {validator : Option Validator}
      {s : Setting} (hasks : Asks root place (.table required optional) validator)
      (hfind : place.value? config = some s) (hs : s.asTable? = none) :
      Finding root config (.mismatch (place ++ [.name "root"]) "table" s.typeName)

theorem value_member {members : List (String × Setting)} {name : String} {v : Setting}
    (hfind : place.value? config = some (.table members)) (hv : members.lookup name = some v) :
    Place.value? (place ++ [.name name]) config = some v := by
  rw [Place.value_append, hfind]
  simp [Place.value?, Setting.get?, Setting.asTable?, hv]

theorem value_item {items : List Setting} {i : Nat} {v : Setting}
    (hfind : place.value? config = some (.array items)) (hv : items[i]? = some v) :
    Place.value? (place ++ [.index i]) config = some v := by
  rw [Place.value_append, hfind]
  simp [Place.value?, hv]

/-- A fault that a check finds is what is at its place. -/
theorem finding_of_error (hasks : Asks root place kind validator)
    (hfind : place.value? config = some s) (h : checkKind kind place s = .error fault) :
    Finding root config fault := by
  -- On the kind; a place one level further down is found by the same steps.
  induction kind using Kind.induct generalizing place validator s with
  | string =>
    rw [checkKind, expect_bind_eq_error_iff] at h
    obtain ⟨-, rfl⟩ | ⟨_, -, h⟩ := h
    · exact .mismatch hasks (by simp) hfind (by decide)
    · cases h
  | integer min max =>
    rw [checkKind, expect_bind_eq_error_iff] at h
    obtain ⟨-, rfl⟩ | ⟨n, hn, h⟩ := h
    · exact .mismatch hasks (by simp) hfind (by decide)
    · obtain ⟨message, hbeyond, rfl⟩ := checkBounds_eq_error h
      obtain rfl := asInteger_eq_some_iff.mp hn
      exact .invalid hasks hfind (.bound hbeyond)
  | boolean =>
    rw [checkKind, expect_bind_eq_error_iff] at h
    obtain ⟨-, rfl⟩ | ⟨_, -, h⟩ := h
    · exact .mismatch hasks (by simp) hfind (by decide)
    · cases h
  | url =>
    rw [checkKind, expect_bind_eq_error_iff] at h
    simp only [demand_eq_error_iff, isUrl_iff] at h
    obtain ⟨-, rfl⟩ | ⟨text, htext, hurl, rfl⟩ := h
    · exact .mismatch hasks (by simp) hfind (by decide)
    · obtain rfl := asString_eq_some_iff.mp htext
      exact .invalid hasks hfind (.url hurl)
  | address =>
    rw [checkKind, expect_bind_eq_error_iff] at h
    simp only [demand_eq_error_iff, Address.ofText_isSome_iff] at h
    obtain ⟨-, rfl⟩ | ⟨text, htext, haddress, rfl⟩ := h
    · exact .mismatch hasks (by simp) hfind (by decide)
    · obtain rfl := asString_eq_some_iff.mp htext
      exact .invalid hasks hfind (.address haddress)
  | array item ih =>
    obtain ⟨-, rfl⟩ | ⟨items, i, v, rfl, hv, hcheck⟩ := checkArray_eq_error h
    · exact .mismatch hasks (by simp) hfind (by decide)
    · exact ih (hasks.item i) (value_item hfind hv) hcheck
  | table required optional ih =>
    obtain ⟨hs, rfl⟩ | ⟨members, rfl, ⟨f, hf, hlacks, rfl⟩ | ⟨f, hf, v, hv, hcheck⟩⟩ :=
      checkTable_eq_error h
    · exact .noTable hasks hfind hs
    · exact .missing hasks hf hfind hlacks
    · have hasks' := hasks.field hf
      have hfind' := value_member hfind hv
      rw [Field.check, then_eq_error_iff, checkValidator_eq_error_iff] at hcheck
      -- A field with a validator fails in its kind or, past that, in the validator.
      obtain hkind | ⟨-, check, message, hvalidator, hmessage, rfl⟩ := hcheck
      · exact ih f hf hasks' hfind' hkind
      · rw [hvalidator] at hasks'
        exact .invalid hasks' hfind' (.validator hmessage)

/-! ## The path of a fault -/

namespace Finding

variable {schema : Schema}

/-- The place of a finding starts with a name. -/
theorem starts (h : Finding schema.kind config fault) :
    ∃ name rest, fault.place = .name name :: rest := by
  cases h with
  | missing hasks hf =>
    obtain ⟨hnil, -⟩ | hstarts := (hasks.field (List.mem_append_left _ hf)).starts
    · exact absurd hnil (by simp)
    · exact hstarts
  | invalid hasks _ hbreaks =>
    obtain ⟨-, rfl, rfl⟩ | hstarts := hasks.starts
    · cases hbreaks
    · exact hstarts
  | mismatch hasks htable =>
    obtain ⟨-, hkind, -⟩ | hstarts := hasks.starts
    · exact absurd hkind (htable _ _)
    · exact hstarts
  | noTable hasks =>
    obtain ⟨rfl, -⟩ | ⟨name, rest, rfl⟩ := hasks.starts
    · exact ⟨"root", [], rfl⟩
    · exact ⟨name, rest ++ [.name "root"], rfl⟩

/-- The names in the place of a finding are names of the schema, but for a last `root`. -/
theorem names (h : Finding schema.kind config fault) :
    ∀ n, .name n ∈ fault.place → n ∈ schema.kind.names ∨ n = "root" := by
  intro n hn
  cases h with
  | missing hasks hf =>
    exact .inl ((hasks.field (List.mem_append_left _ hf)).names_of_place n hn)
  | invalid hasks => exact .inl (hasks.names_of_place n hn)
  | mismatch hasks => exact .inl (hasks.names_of_place n hn)
  | noTable hasks =>
    rcases List.mem_append.mp hn with hn | hn
    · exact .inl (hasks.names_of_place n hn)
    · obtain ⟨rfl⟩ := List.mem_singleton.mp hn
      exact .inr rfl

/-- The path of a finding is read as its place. -/
theorem ofText_field (h : Finding schema.kind config fault)
    (hplain : ∀ n ∈ schema.kind.names, IsPlain n) :
    Place.ofText? fault.field = some fault.place := by
  obtain ⟨name, rest, hplace⟩ := h.starts
  have hnames : ∀ n, .name n ∈ fault.place → IsPlain n := by
    intro n hn
    obtain hschema | rfl := h.names n hn
    · exact hplain n hschema
    · decide
  rw [hplace] at hnames
  rw [Fault.field, hplace]
  exact Place.ofText_text hnames

end Finding

/-- The path of a fault, read from the root of the settings, leads to what is wrong: to a value of
the other type, to one that breaks what is asked for there, or behind a table without the member. -/
def Leads (root : Kind) (config : Setting) (fault : Fault) : Prop :=
  ∃ place, Place.ofText? fault.field = some place ∧
    match fault with
    | .missing _ => ∃ (table : Place) (name : String) (members : List (String × Setting)),
        place = table ++ [.name name] ∧ table.value? config = some (.table members) ∧
          members.lookup name = none
    | .invalid _ message => ∃ kind validator s, Asks root place kind validator ∧
        place.value? config = some s ∧ Breaks kind validator s message
    | .mismatch _ _ actual => ∃ s, place.value? config = some s ∧ s.typeName = actual

/-- A fault says that a table is asked for. -/
def Fault.AsksTable : Fault → Prop
  | .mismatch _ expected _ => expected = "table"
  | _ => False

theorem Finding.leads {schema : Schema} (h : Finding schema.kind config fault)
    (hplain : ∀ n ∈ schema.kind.names, IsPlain n) (htable : ¬fault.AsksTable) :
    Leads schema.kind config fault := by
  refine ⟨fault.place, h.ofText_field hplain, ?_⟩
  cases h with
  | missing _ _ hfind hlacks => exact ⟨_, _, _, rfl, hfind, hlacks⟩
  | invalid hasks hfind hbreaks => exact ⟨_, _, _, hasks, hfind, hbreaks⟩
  | mismatch _ _ hfind _ => exact ⟨_, hfind, rfl⟩
  | noTable => exact absurd rfl htable

/-- Where a table is asked for and something else is there, nothing is at the reported place: it has
the name `root` behind the place where the other thing is. -/
theorem Finding.astray {schema : Schema} (h : Finding schema.kind config fault)
    (htable : fault.AsksTable) :
    ∃ (place : Place) (s : Setting),
      fault = .mismatch (place ++ [.name "root"]) "table" s.typeName ∧
      place.value? config = some s ∧ s.asTable? = none ∧ fault.place.value? config = none := by
  cases h with
  | missing => cases htable
  | invalid => cases htable
  | mismatch _ _ _ hexpected => exact absurd htable hexpected
  | @noTable place _ _ _ s _ hfind hs =>
    refine ⟨place, s, rfl, hfind, hs, ?_⟩
    rw [Fault.place, Place.value_append, hfind]
    simp [Place.value?, Setting.get?, hs]

/-- The path that a fault is reported with leads to what is wrong, at any depth, unless it says that
a table is asked for. Then the path without its last name leads there, and with it nowhere. -/
theorem faults_lead (schema : Schema) (hplain : ∀ n ∈ schema.kind.names, IsPlain n)
    (config : Setting) (fault : Fault) (h : schema.validate config = .error fault) :
    (Leads schema.kind config fault ↔ ¬fault.AsksTable) ∧
    (fault.AsksTable → ∃ (place : Place) (s : Setting),
      Place.ofText? fault.field = some (place ++ [.name "root"]) ∧
      place.value? config = some s ∧ s.asTable? = none ∧
      fault = .mismatch (place ++ [.name "root"]) "table" s.typeName) := by
  have hfinding : Finding schema.kind config fault := finding_of_error .here rfl h
  have hread := hfinding.ofText_field hplain
  refine ⟨⟨?_, hfinding.leads hplain⟩, ?_⟩
  · rintro ⟨place, hplace, hleads⟩ htable
    obtain ⟨_, s, rfl, -, -, hnone⟩ := hfinding.astray htable
    obtain ⟨v, hv, -⟩ := hleads
    obtain rfl := Option.some.inj (hread.symm.trans hplace)
    cases hnone.symm.trans hv
  · intro htable
    obtain ⟨place, s, rfl, hfind, hs, -⟩ := hfinding.astray htable
    exact ⟨place, s, hread, hfind, hs, rfl⟩

/-- A list of feeds, each at a contract of a chain. -/
def feedsSchema : Schema where
  required := [field "feeds" (.array (.table [field "chain_id" (.integer (some 1) none)]
    [field "contract" .address]))]
  optional := []

/-- Settings with a good feed and another value. -/
def feedsWith (other : Setting) : Setting :=
  .table [("feeds", .array [.table [("chain_id", .integer 1)], other])]

/-- The second feed is on no chain, or is no table. -/
theorem faults_lead_feeds :
    (∀ n ∈ feedsSchema.kind.names, IsPlain n) ∧
    (let config := feedsWith (.table [("chain_id", .integer 0)])
      let fault := Fault.invalid [.name "feeds", .index 1, .name "chain_id"]
        "Value 0 is less than minimum 1"
      feedsSchema.validate config = .error fault ∧ fault.field = "feeds[1].chain_id" ∧
        Leads feedsSchema.kind config fault) ∧
    (let config := feedsWith (.string "eth-usd")
      let fault := Fault.mismatch [.name "feeds", .index 1, .name "root"] "table" "string"
      feedsSchema.validate config = .error fault ∧ fault.AsksTable ∧
        ¬Leads feedsSchema.kind config fault ∧
        ∃ (place : Place) (s : Setting),
          Place.ofText? fault.field = some (place ++ [.name "root"]) ∧
          place.value? config = some s ∧ s.asTable? = none ∧
          fault = .mismatch (place ++ [.name "root"]) "table" s.typeName) := by
  have hplain : ∀ n ∈ feedsSchema.kind.names, IsPlain n := by decide
  refine ⟨hplain, ?_, ?_⟩
  · intro config fault
    have hfault : feedsSchema.validate config = .error fault := rfl
    exact ⟨hfault, by decide, (faults_lead _ hplain config fault hfault).1.mpr id⟩
  · intro config fault
    have hfault : feedsSchema.validate config = .error fault := rfl
    obtain ⟨hleads, hastray⟩ := faults_lead _ hplain config fault hfault
    exact ⟨hfault, rfl, fun h => hleads.mp h rfl, hastray rfl⟩

/-- A string in place of a table is reported at a place where nothing is. -/
theorem root_reported_where_nothing_is :
    let schema := Schema.mk [field "provider" (.table [field "hostname" .url] [])] []
    let config := Setting.table [("provider", .string "localhost")]
    let fault := Fault.mismatch [.name "provider", .name "root"] "table" "string"
    (∀ n ∈ schema.kind.names, IsPlain n) ∧ schema.validate config = .error fault ∧
    fault.message = "Type mismatch for field 'provider.root': expected table, got string" ∧
    ¬Leads schema.kind config fault := by
  intro schema config fault
  refine ⟨by decide, rfl, by decide, ?_⟩
  rintro ⟨place, hplace, s, hs, -⟩
  have hread : Place.ofText? fault.field = some fault.place := by decide
  obtain rfl := Option.some.inj (hread.symm.trans hplace)
  cases hs

end PriceOracle.Schema
