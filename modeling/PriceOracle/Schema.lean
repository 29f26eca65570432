import PriceOracle.Setting

/-!
# Schemas of settings

A `Schema` names the fields that a settings table has to have and those it may have, each with
the kind of value it holds. `Schema.validate` reports the first fault: required fields are
checked before optional ones, each in the order of declaration, and the kind of a value before
its validator. Names that a schema does not declare are ignored.

A fault carries the place where it stands, as steps from the root of the settings.
-/

namespace PriceOracle

namespace Schema

/-- A step into a table or an array. -/
inductive Step where
  | name (s : String)
  | index (i : Nat)
  deriving DecidableEq

/-- A place within settings, as the steps that lead to it. -/
abbrev Place := List Step

/-- The written form of the steps after the first. -/
def Place.restText : Place → String
  | [] => ""
  | .name s :: rest => "." ++ s ++ restText rest
  | .index i :: rest => s!"[{i}]" ++ restText rest

/-- The written form of a place: names joined by dots, indices in brackets. -/
def Place.text : Place → String
  | [] => ""
  | .name s :: rest => s ++ restText rest
  | .index i :: rest => s!"[{i}]" ++ restText rest

/-- What is wrong with a settings table, and where. -/
inductive Fault where
  | missing (place : Place)
  | invalid (place : Place) (message : String)
  | mismatch (place : Place) (expected actual : String)
  deriving DecidableEq

namespace Fault

/-- The wording of a fault. -/
def message : Fault → String
  | missing place => s!"Missing required field: {place.text}"
  | invalid place message => s!"Invalid value for field '{place.text}': {message}"
  | mismatch place expected actual =>
    s!"Type mismatch for field '{place.text}': expected {expected}, got {actual}"

end Fault

/-- A check of a field beyond its kind; an error is the wording of what is wrong. -/
abbrev Validator := Setting → Except String Unit

mutual

/-- A kind of value. -/
inductive Kind where
  | string
  | integer (min max : Option Int)
  | boolean
  | url
  | address
  | array (item : Kind)
  | table (required optional : List Field)

/-- A field of a table. -/
inductive Field where
  | mk (name : String) (kind : Kind) (validator : Option Validator)

end

instance : Inhabited Kind := ⟨.string⟩

/-- The name of a field. -/
def Field.name : Field → String
  | mk name _ _ => name

/-- The kind of a field. -/
def Field.kind : Field → Kind
  | mk _ kind _ => kind

/-- The check of a field beyond its kind. -/
def Field.validator : Field → Option Validator
  | mk _ _ validator => validator

/-- A field of a kind, without a validator. -/
def field (name : String) (kind : Kind) : Field := .mk name kind none

end Schema

/-- The required and the optional fields of a settings table. -/
structure Schema where
  required : List Schema.Field
  optional : List Schema.Field

namespace Schema

/-- A URL that a request can be made to. -/
def isUrl (s : String) : Bool := s.startsWith "http://" || s.startsWith "https://"

/-- Takes a value of one kind out of a setting. -/
def expect (place : Place) (expected : String) (get? : Setting → Option α) (s : Setting) :
    Except Fault α :=
  match get? s with
  | some a => .ok a
  | none => .error (.mismatch place expected s.typeName)

/-- Checks an integer against inclusive bounds. -/
def checkBounds (place : Place) (min max : Option Int) (n : Int) : Except Fault Unit := do
  if let some m := min then
    if n < m then throw (.invalid place s!"Value {n} is less than minimum {m}")
  if let some m := max then
    if m < n then throw (.invalid place s!"Value {n} is greater than maximum {m}")

/-- Runs the validator of a field. -/
def checkValidator (place : Place) (validator : Option Validator) (s : Setting) :
    Except Fault Unit :=
  match validator with
  | none => .ok ()
  | some check =>
    match check s with
    | .ok () => .ok ()
    | .error message => .error (.invalid place message)

/-- Checks the items of an array, counting from `i`. -/
def checkItems (check : Place → Setting → Except Fault Unit) (place : Place) :
    Nat → List Setting → Except Fault Unit
  | _, [] => .ok ()
  | i, s :: rest => do
    check (place ++ [.index i]) s
    checkItems check place (i + 1) rest

mutual

/-- Checks a value against a kind. Faults inside a table are named from the table itself on. -/
def checkKind : Kind → Place → Setting → Except Fault Unit
  | .string, place, s => do let _ ← expect place "string" Setting.asString? s
  | .integer min max, place, s => do
    let n ← expect place "integer" Setting.asInteger? s
    checkBounds place min max n
  | .boolean, place, s => do
    let _ ← expect place "boolean" (fun | .boolean b => some b | _ => none) s
  | .url, place, s => do
    let url ← expect place "url string" Setting.asString? s
    if isUrl url then .ok () else .error (.invalid place s!"'{url}' is not an http(s) URL")
  | .address, place, s => do
    let a ← expect place "address string" Setting.asString? s
    if (Address.ofText? a).isSome then .ok ()
    else .error (.invalid place s!"'{a}' is not a 20-byte hex address")
  | .array item, place, s => do
    let items ← expect place "array" (fun | .array items => some items | _ => none) s
    checkItems (checkKind item) place 0 items
  | .table required optional, place, s => do
    let members ← expect (place ++ [.name "root"]) "table" Setting.asTable? s
    checkRequired required place members
    checkOptional optional place members

/-- Checks that the fields of a table are there and hold what they should. -/
def checkRequired : List Field → Place → List (String × Setting) → Except Fault Unit
  | [], _, _ => .ok ()
  | .mk name kind validator :: rest, place, members =>
    let here := place ++ [.name name]
    match members.lookup name with
    | none => .error (.missing here)
    | some s => do
      checkKind kind here s
      checkValidator here validator s
      checkRequired rest place members

/-- Checks those fields of a table that are there. -/
def checkOptional : List Field → Place → List (String × Setting) → Except Fault Unit
  | [], _, _ => .ok ()
  | .mk name kind validator :: rest, place, members =>
    let here := place ++ [.name name]
    match members.lookup name with
    | none => checkOptional rest place members
    | some s => do
      checkKind kind here s
      checkValidator here validator s
      checkOptional rest place members

end

/-- Checks settings against a schema. -/
def validate (schema : Schema) (s : Setting) : Except Fault Unit :=
  checkKind (.table schema.required schema.optional) [] s

end Schema

end PriceOracle
