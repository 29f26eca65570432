import PriceOracle.Json

/-!
# Taking JSON values apart

Access to the parts of a value whose shape is known; a part that is missing is null, and a value of
another shape has no parts.
-/

namespace PriceOracle.Json

/-- The member of a name. -/
def field (j : Json) (name : String) : Json := (j.member? name).getD .null

/-- The text of a string or an integer. -/
def asText : Json → String
  | .str s => s
  | .int n => toString n
  | _ => ""

/-- The text of a member. -/
def textField (j : Json) (name : String) : String := (j.field name).asText

/-- The text of a member that is a string. -/
def textField? (j : Json) (name : String) : Option String :=
  match j.member? name with
  | some (.str s) => some s
  | _ => none

/-- The number of a member, or another one. -/
def natField (j : Json) (name : String) (default : Nat) : Nat :=
  match j.field name with
  | .int n => n.toNat
  | _ => default

/-- The number of a member as a word of 64 bits. -/
def wordField (j : Json) (name : String) : UInt64 := UInt64.ofNat (j.natField name 0)

/-- The truth of a member, or another one. -/
def boolField (j : Json) (name : String) (default : Bool) : Bool :=
  match j.field name with
  | .bool b => b
  | _ => default

/-- The items of an array. -/
def items : Json → List Json
  | .arr xs => xs
  | _ => []

/-- The members of an object. -/
def members : Json → List (String × Json)
  | .obj ms => ms
  | _ => []

/-- The items of a member that is an array. -/
def listField (j : Json) (name : String) : List Json := (j.field name).items

/-- An object with more members. -/
def extend (more : List (String × Json)) : Json → Json
  | .obj ms => .obj (ms ++ more)
  | j => j

end PriceOracle.Json
