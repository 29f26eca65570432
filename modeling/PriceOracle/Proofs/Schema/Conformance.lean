import Mathlib.Data.List.Perm.Basic
import PriceOracle.Proofs.Address
import PriceOracle.Proofs.Schema.Checks

/-!
# Which settings a schema accepts

`Conforms` says what a schema asks for, without the order in which it is looked at and without the
reports of what is wrong.

* `checkKind_eq_ok_iff`: a check passes exactly for what conforms.
* `Reordered`: kinds whose tables declare the same fields in another order, at any depth.
* `Altered`: settings that differ in a member that no field declares, in a table that no validator
  sees. `Altered.checkKind_eq`: a check does not tell them apart, faults included.
* `accepts_conforming`: all of this for schemas.
-/

namespace PriceOracle.Schema

/-! ## What a kind asks for -/

/-- A text that starts as a URL of the web does. -/
def IsWebUrl (text : String) : Prop :=
  "http://".toList <+: text.toList ∨ "https://".toList <+: text.toList

/-- A text of 40 hexadecimal digits, with a mark in small or capital letters or without one. -/
def IsAddress (text : String) : Prop :=
  Address.Written ['0', 'x'] text ∨ Address.Written ['0', 'X'] text

/-- A setting is what a kind asks for: a value of the type, within the bounds and of the form, in an
array item by item, and in a table with every required field there and every declared one, where it
is there, of its own kind and to the liking of its validator. -/
inductive Conforms : Kind → Setting → Prop where
  | string (text : String) : Conforms .string (.string text)
  | integer {min max : Option Int} {n : Int} (hmin : ∀ m ∈ min, m ≤ n) (hmax : ∀ m ∈ max, n ≤ m) :
      Conforms (.integer min max) (.integer n)
  | boolean (b : Bool) : Conforms .boolean (.boolean b)
  | url {text : String} (h : IsWebUrl text) : Conforms .url (.string text)
  | address {text : String} (h : IsAddress text) : Conforms .address (.string text)
  | array {item : Kind} {items : List Setting} (h : ∀ v ∈ items, Conforms item v) :
      Conforms (.array item) (.array items)
  | table {required optional : List Field} {members : List (String × Setting)}
      (hpresent : ∀ f ∈ required, members.lookup f.name ≠ none)
      (hkinds : ∀ f ∈ required ++ optional, ∀ v, members.lookup f.name = some v →
        Conforms f.kind v)
      (hvalidators : ∀ f ∈ required ++ optional, ∀ v, members.lookup f.name = some v →
        ∀ check ∈ f.validator, check v = .ok ()) :
      Conforms (.table required optional) (.table members)

variable {place : Place} {s : Setting} {required optional : List Field} {item : Kind}

theorem isUrl_iff {text : String} : isUrl text = true ↔ IsWebUrl text := by
  rw [isUrl, Bool.or_eq_true, String.startsWith_string_iff, String.startsWith_string_iff, IsWebUrl]

theorem conforms_array_iff : Conforms (.array item) s ↔
    ∃ items, s = .array items ∧ ∀ v ∈ items, Conforms item v := by
  constructor
  · rintro (_ | _ | _ | _ | _ | h)
    exact ⟨_, rfl, h⟩
  · rintro ⟨items, rfl, h⟩
    exact .array h

theorem conforms_table_iff : Conforms (.table required optional) s ↔
    ∃ members, s = .table members ∧ (∀ f ∈ required, members.lookup f.name ≠ none) ∧
      ∀ f ∈ required ++ optional, ∀ v, members.lookup f.name = some v →
        Conforms f.kind v ∧ ∀ check ∈ f.validator, check v = .ok () := by
  constructor
  · intro h
    cases h with
    | table hpresent hkinds hvalidators =>
      exact ⟨_, rfl, hpresent, fun f hf v hv => ⟨hkinds f hf v hv, hvalidators f hf v hv⟩⟩
  · rintro ⟨members, rfl, hpresent, h⟩
    exact .table hpresent (fun f hf v hv => (h f hf v hv).1) fun f hf v hv => (h f hf v hv).2

/-! ## What a check accepts -/

/-- A check passes exactly for what conforms, wherever the value stands. -/
theorem checkKind_eq_ok_iff {kind : Kind} : checkKind kind place s = .ok () ↔ Conforms kind s := by
  -- On the kind: a check of an array or a table is the checks of what is inside it.
  induction kind using Kind.induct generalizing place s with
  | string =>
    rw [checkKind, expect_bind_eq_ok_iff]
    constructor
    · rintro ⟨text, htext, -⟩
      obtain rfl := asString_eq_some_iff.mp htext
      exact .string text
    · rintro ⟨⟩
      exact ⟨_, rfl, rfl⟩
  | integer min max =>
    rw [checkKind, expect_bind_eq_ok_iff]
    simp only [checkBounds_eq_ok_iff]
    constructor
    · rintro ⟨n, hn, hmin, hmax⟩
      obtain rfl := asInteger_eq_some_iff.mp hn
      exact .integer hmin hmax
    · rintro (_ | ⟨hmin, hmax⟩)
      exact ⟨_, rfl, hmin, hmax⟩
  | boolean =>
    rw [checkKind, expect_bind_eq_ok_iff]
    constructor
    · rintro ⟨b, hb, -⟩
      cases s with
      | boolean b => exact .boolean b
      | _ => cases hb
    · rintro ⟨⟩
      exact ⟨_, rfl, rfl⟩
  | url =>
    rw [checkKind, expect_bind_eq_ok_iff]
    simp only [demand_eq_ok_iff, isUrl_iff]
    constructor
    · rintro ⟨text, htext, hurl⟩
      obtain rfl := asString_eq_some_iff.mp htext
      exact .url hurl
    · rintro (_ | _ | _ | h)
      exact ⟨_, rfl, h⟩
  | address =>
    rw [checkKind, expect_bind_eq_ok_iff]
    simp only [demand_eq_ok_iff, Address.ofText_isSome_iff]
    constructor
    · rintro ⟨text, htext, haddress⟩
      obtain rfl := asString_eq_some_iff.mp htext
      exact .address haddress
    · rintro (_ | _ | _ | _ | h)
      exact ⟨_, rfl, h⟩
  | array item ih =>
    rw [checkArray_eq_ok_iff, conforms_array_iff]
    simp only [ih, List.mem_iff_getElem?, forall_exists_index]
    exact exists_congr fun items => and_congr_right fun _ => forall_comm
  | table required optional ih =>
    rw [checkTable_eq_ok_iff, conforms_table_iff]
    refine exists_congr fun members => and_congr_right fun _ => and_congr_right fun _ => ?_
    refine forall₂_congr fun f hf => forall₂_congr fun v _ => ?_
    rw [Field.check_eq_ok_iff, ih f hf]

/-! ## The order of fields -/

/-- The same kind with the fields of its tables in another order, at any depth. -/
inductive Reordered : Kind → Kind → Prop where
  | refl (kind : Kind) : Reordered kind kind
  | trans {kind kind' kind'' : Kind} (h : Reordered kind kind') (h' : Reordered kind' kind'') :
      Reordered kind kind''
  | fields {required required' optional optional' : List Field}
      (hrequired : required.Perm required') (hoptional : optional.Perm optional') :
      Reordered (.table required optional) (.table required' optional')
  | item {item item' : Kind} (h : Reordered item item') : Reordered (.array item) (.array item')
  | required {name : String} {kind kind' : Kind} {validator : Option Validator}
      {before after optional : List Field} (h : Reordered kind kind') :
      Reordered (.table (before ++ .mk name kind validator :: after) optional)
        (.table (before ++ .mk name kind' validator :: after) optional)
  | optional {name : String} {kind kind' : Kind} {validator : Option Validator}
      {required before after : List Field} (h : Reordered kind kind') :
      Reordered (.table required (before ++ .mk name kind validator :: after))
        (.table required (before ++ .mk name kind' validator :: after))

theorem Reordered.conforms_iff {kind kind' : Kind} (h : Reordered kind kind') :
    Conforms kind s ↔ Conforms kind' s := by
  induction h generalizing s with
  | refl => rfl
  | trans _ _ ih ih' => exact ih.trans ih'
  | fields hrequired hoptional =>
    simp only [conforms_table_iff, hrequired.mem_iff, (hrequired.append hoptional).mem_iff]
  | item _ ih => simp only [conforms_array_iff, ih]
  | required _ ih =>
    simp only [conforms_table_iff, List.forall_mem_append, List.forall_mem_cons, Field.name,
      Field.kind, Field.validator, ih]
  | optional _ ih =>
    simp only [conforms_table_iff, List.forall_mem_append, List.forall_mem_cons, Field.name,
      Field.kind, Field.validator, ih]

/-! ## Members that are not declared -/

/-- Settings that differ where a schema does not look: the second one has a member more that no
field of its table declares, at any depth. On the way there is no field with a validator, as that
would see the whole value; where a member is not declared, its value may differ in any way. -/
inductive Altered : Kind → Setting → Setting → Prop where
  | added {kind : Kind} {before after : List (String × Setting)} {name : String} {value : Setting}
      (hundeclared : ∀ f ∈ kind.fields, f.name ≠ name) :
      Altered kind (.table (before ++ after)) (.table (before ++ (name, value) :: after))
  | member {kind : Kind} {before after : List (String × Setting)} {name : String}
      {value value' : Setting} (hunseen : ∀ f ∈ kind.fields, f.name = name → f.validator = none)
      (h : ∀ f ∈ kind.fields, f.name = name → Altered f.kind value value') :
      Altered kind (.table (before ++ (name, value) :: after))
        (.table (before ++ (name, value') :: after))
  | item {kind : Kind} {before after : List Setting} {value value' : Setting}
      (h : ∀ item, kind = .array item → Altered item value value') :
      Altered kind (.array (before ++ value :: after)) (.array (before ++ value' :: after))

/-- The look-up of a name passes by a member of another name. -/
theorem lookup_insert_of_ne {before after : List (String × Setting)} {name other : String}
    {value : Setting} (h : other ≠ name) :
    (before ++ (name, value) :: after).lookup other = (before ++ after).lookup other := by
  have hne : (other == name) = false := beq_eq_false_iff_ne.mpr h
  rw [List.lookup_append, List.lookup_append, List.lookup_cons, hne]

/-- The look-up of a name among members that differ in the value of it. -/
theorem lookup_alter {γ : Type} {g : Setting → γ} {before after : List (String × Setting)}
    {name : String} {value value' : Setting} (h : g value = g value') :
    ((before ++ (name, value) :: after).lookup name).map g =
      ((before ++ (name, value') :: after).lookup name).map g := by
  rw [List.lookup_append, List.lookup_append, List.lookup_cons_self, List.lookup_cons_self]
  cases before.lookup name with
  | none => exact congrArg some h
  | some first => rfl

/-- A check does not tell altered settings apart. -/
theorem Altered.checkKind_eq {kind : Kind} {s' : Setting} (h : Altered kind s s') :
    checkKind kind place s = checkKind kind place s' := by
  induction h generalizing place with
  | @added kind before after name value hundeclared =>
    cases kind with
    | table required optional =>
      refine checkTable_congr fun f hf => ?_
      rw [lookup_insert_of_ne (hundeclared f hf)]
    | _ => rfl
  | @member kind before after name value value' hunseen _ ih =>
    cases kind with
    | table required optional =>
      refine checkTable_congr fun f hf => ?_
      by_cases hname : f.name = name
      · have hcheck : f.check place value = f.check place value' := by
          rw [Field.check, Field.check, hunseen f hf hname, ih f hf hname]
          rfl
        rw [hname]
        exact lookup_alter hcheck
      · rw [lookup_insert_of_ne hname, lookup_insert_of_ne hname]
    | _ => rfl
  | @item kind before after value value' _ ih =>
    cases kind with
    | array item => exact checkArray_congr fun i => ih item rfl
    | _ => rfl

/-! ## Schemas -/

/-- A schema accepts exactly the settings that conform to it. Which ones it accepts does not depend
on the order of the fields that it declares, and members that it does not declare, where no
validator sees them, do not change what it finds. -/
theorem accepts_conforming :
    (∀ (schema : Schema) (s : Setting),
      schema.validate s = .ok () ↔ Conforms schema.kind s) ∧
    (∀ (schema schema' : Schema) (s : Setting), Reordered schema.kind schema'.kind →
      (schema.validate s = .ok () ↔ schema'.validate s = .ok ())) ∧
    ∀ (schema : Schema) (s s' : Setting), Relation.ReflTransGen (Altered schema.kind) s s' →
      schema.validate s = schema.validate s' := by
  refine ⟨?_, ?_, ?_⟩
  · intro schema s
    exact checkKind_eq_ok_iff
  · intro schema schema' s h
    exact checkKind_eq_ok_iff.trans (h.conforms_iff.trans checkKind_eq_ok_iff.symm)
  · intro schema s s' h
    induction h with
    | refl => rfl
    | tail _ hlast ih => exact ih.trans hlast.checkKind_eq

/-- A list of feeds, each at a contract of a chain, and a name that a validator looks at. -/
def feedSchema (fields : List Field) : Schema where
  required := [field "feeds" (.array (.table fields []))]
  optional := [.mk "name" .string
    (some fun s => if s.asString? = some "" then .error "has no letters" else .ok ())]

/-- Settings with one feed, which may have more members than are declared. -/
def oneFeed (more : List (String × Setting)) : Setting :=
  .table [("name", .string "main"), ("feeds", .array [.table ([("chain_id", .integer 1),
    ("contract", .string "0x5FbDB2315678afecb367f032d93F642f64180aa3")] ++ more)])]

/-- One feed conforms, also to the schema with its fields in the other order, and a note on the feed
does not matter. -/
theorem accepts_conforming_oneFeed :
    let contract := field "contract" .address
    let chain := field "chain_id" (.integer (some 1) none)
    let schema := feedSchema [contract, chain]
    Conforms schema.kind (oneFeed []) ∧
    Reordered schema.kind (feedSchema [chain, contract]).kind ∧
    (feedSchema [chain, contract]).validate (oneFeed []) = .ok () ∧
    Altered schema.kind (oneFeed []) (oneFeed [("note", .boolean true)]) ∧
    schema.validate (oneFeed [("note", .boolean true)]) = .ok () := by
  intro contract chain schema
  have haccepted : schema.validate (oneFeed []) = .ok () := by rfl
  have hreordered : Reordered schema.kind (feedSchema [chain, contract]).kind :=
    @Reordered.required _ _ _ _ [] [] _ (.item (.fields (List.Perm.swap _ _ _) (.refl [])))
  -- The undeclared key sits inside the one item of the array under the key of the feeds.
  have hfeeds : ∀ f ∈ schema.kind.fields, f.name = "feeds" →
      f = field "feeds" (.array (.table [contract, chain] [])) :=
    List.forall_mem_cons.mpr ⟨fun _ => rfl,
      List.forall_mem_singleton.mpr fun hname => absurd hname (by decide)⟩
  have hnote : ∀ f ∈ Kind.fields (.table [contract, chain] []), f.name ≠ "note" :=
    List.forall_mem_cons.mpr ⟨by decide, List.forall_mem_singleton.mpr (by decide)⟩
  have haltered : Altered schema.kind (oneFeed []) (oneFeed [("note", .boolean true)]) := by
    refine @Altered.member _ [_] [] "feeds" _ _ ?_ ?_
    · intro f hf hname
      rw [hfeeds f hf hname]
      rfl
    · intro f hf hname
      rw [hfeeds f hf hname]
      refine @Altered.item _ [] [] _ _ ?_
      rintro item ⟨⟩
      exact @Altered.added _ [_, _] [] "note" _ hnote
  exact ⟨(accepts_conforming.1 schema _).mp haccepted, hreordered,
    (accepts_conforming.2.1 schema _ _ hreordered).mp haccepted, haltered,
    (accepts_conforming.2.2 schema _ _ (.single haltered)).symm.trans haccepted⟩

/-- An address may also have its mark in capital letters. -/
theorem capital_mark_accepted :
    let text := "0X5FbDB2315678afecb367f032d93F642f64180aa3"
    (Schema.mk [field "contract" .address] []).validate (.table [("contract", .string text)]) =
      .ok () ∧
    ¬Address.Written ['0', 'x'] text := by
  refine ⟨by rfl, ?_⟩
  rintro ⟨digits, hlength, -, htext | htext⟩
  · rw [← htext] at hlength
    exact absurd hlength (by decide)
  · have hmark : "0X5FbDB2315678afecb367f032d93F642f64180aa3".toList[1]? = some 'x' := by
      rw [htext]
      rfl
    exact absurd hmark (by decide)

end PriceOracle.Schema
