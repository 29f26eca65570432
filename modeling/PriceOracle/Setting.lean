import PriceOracle.Document.Decode

/-!
# Settings

The free-form sections of a configuration, one per backend: strings, integers, floats, booleans,
dates, arrays and tables. A backend checks its section against a schema before it takes values
out of it.
-/

namespace PriceOracle

/-- A value of a settings section. Integers have 64 bits. -/
inductive Setting where
  | string (s : String)
  | integer (n : Int)
  | float (x : Binary64)
  /-- An infinity or a value that is not a number. -/
  | nonFinite (text : String)
  | boolean (b : Bool)
  | datetime (text : String)
  | array (items : List Setting)
  | table (members : List (String × Setting))
  deriving Inhabited

namespace Setting

/-- A table without members. -/
def empty : Setting := .table []

/-- The name of a kind of value. -/
def typeName : Setting → String
  | string _ => "string"
  | integer _ => "integer"
  | float _ | nonFinite _ => "float"
  | boolean _ => "boolean"
  | datetime _ => "datetime"
  | array _ => "array"
  | table _ => "table"

/-- The members of a table. -/
def asTable? : Setting → Option (List (String × Setting))
  | table members => some members
  | _ => none

def asString? : Setting → Option String
  | string s => some s
  | _ => none

def asInteger? : Setting → Option Int
  | integer n => some n
  | _ => none

/-- The member of a table; none for other values. -/
def get? (s : Setting) (name : String) : Option Setting :=
  s.asTable?.bind (·.lookup name)

/-- Sets a member of a table; other values stay as they are. -/
def set (s : Setting) (name : String) (value : Setting) : Setting :=
  match s with
  | table members => .table (members.filter (·.1 != name) ++ [(name, value)])
  | s => s

/-- A number that fits a signed integer of 64 bits. -/
def fits (n : Int) : Bool := -(2 ^ 63) ≤ n && n < 2 ^ 63

mutual

/-- The setting that a document stands for: all but null, integers beyond 64 bits and tables
with a repeated name. -/
def decode : Document → Decoded Setting
  | .null => .fault .shape
  | .bool b => .ok (.boolean b)
  | .int n => if fits n then .ok (.integer n) else .fault .shape
  | .float x => .ok (.float x)
  | .nonFinite text => .ok (.nonFinite text)
  | .str s => .ok (.string s)
  | .datetime text => .ok (.datetime text)
  | .plain _ value => decode value
  | .seq items | .list items => array <$> decodeItems items
  | .map members =>
    if Record.hasRepeat (members.map (·.1)) then .fault .shape
    else table <$> decodeMembers members
  | .unreadable | .cut => .fault .cut

/-- The settings of the items of a sequence. -/
def decodeItems : List Document → Decoded (List Setting)
  | [] => .ok []
  | d :: rest => List.cons <$> decode d <*> decodeItems rest

/-- The settings of the members of a map. -/
def decodeMembers : List (String × Document) → Decoded (List (String × Setting))
  | [] => .ok []
  | (key, d) :: rest => (fun s more => (key, s) :: more) <$> decode d <*> decodeMembers rest

end

/-- The name under which a date is written in JSON. -/
def datetimeKey : String := "$__toml_private_datetime"

mutual

/-- The JSON value of a setting. -/
def toJson : Setting → Json
  | string s => .str s
  | integer n => .int n
  | float x => .float x
  | nonFinite _ => .null
  | boolean b => .bool b
  | datetime text => .obj [(datetimeKey, .str text)]
  | array items => .arr (toItems items)
  | table members => .obj (toMembers members)

/-- The JSON values of items. -/
def toItems : List Setting → List Json
  | [] => []
  | s :: rest => toJson s :: toItems rest

/-- The JSON members of a table. -/
def toMembers : List (String × Setting) → List (String × Json)
  | [] => []
  | (key, s) :: rest => (key, toJson s) :: toMembers rest

end

end Setting

end PriceOracle
