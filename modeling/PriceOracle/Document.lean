import PriceOracle.Json

/-!
# Documents

A `Document` is what a reader of JSON, TOML or YAML text hands to the typed decoders: values
as written, members in order, repeated names included. Two constructors stand for text that was
not read to a value:

* `cut`: the text breaks off here, or goes on in a way no grammar rule allows. Nothing follows it.
* `unreadable`: a value in good form that no decoder accepts, such as a number beyond every
  double. It does no harm where a decoder skips it.

`plain` is a scalar that its format writes without quotes: a decoder of strings takes the text,
all others the value. `list` is a sequence of a format in which a sequence never stands for the
fields of a record.
-/

namespace PriceOracle

/-- A value as read from text. -/
inductive Document where
  | null
  | bool (b : Bool)
  | int (n : Int)
  | float (x : Binary64)
  /-- An infinity or a value that is not a number, by its sign and name. -/
  | nonFinite (text : String)
  | str (s : String)
  | datetime (text : String)
  | plain (text : String) (value : Document)
  | seq (items : List Document)
  | list (items : List Document)
  | map (members : List (String × Document))
  | unreadable
  | cut
  deriving Inhabited

namespace Document

mutual

/-- The document of a JSON value. -/
def ofJson : Json → Document
  | .null => .null
  | .bool b => .bool b
  | .int n => .int n
  | .float x => .float x
  | .str s => .str s
  | .arr items => .seq (ofItems items)
  | .obj members => .map (ofMembers members)

/-- The documents of the items of an array. -/
def ofItems : List Json → List Document
  | [] => []
  | item :: rest => ofJson item :: ofItems rest

/-- The documents of the members of an object. -/
def ofMembers : List (String × Json) → List (String × Document)
  | [] => []
  | (key, value) :: rest => (key, ofJson value) :: ofMembers rest

end

mutual

/-- The JSON value of a document, when all of it is readable as one. -/
def toJson? : Document → Option Json
  | .null => some .null
  | .bool b => some (.bool b)
  | .int n => some (.int n)
  | .float x => some (.float x)
  | .str s => some (.str s)
  | .seq items | .list items => (toItems? items).map .arr
  | .map members => (toMembers? members).map .obj
  | _ => none

/-- The JSON values of a sequence. -/
def toItems? : List Document → Option (List Json)
  | [] => some []
  | item :: rest => do return (← toJson? item) :: (← toItems? rest)

/-- The JSON members of a map. -/
def toMembers? : List (String × Document) → Option (List (String × Json))
  | [] => some []
  | (key, value) :: rest => do return (key, ← toJson? value) :: (← toMembers? rest)

end

/-- The value behind a plain scalar. -/
def resolved : Document → Document
  | .plain _ value => value
  | d => d

/-- Whether nothing at all is written where a value is expected: that stands for a sequence without
items and for a record without fields. -/
def isBlank : Document → Bool
  | .plain text _ => text.isEmpty
  | _ => false

mutual

/-- Whether the text breaks off, or holds something unreadable, anywhere in the document. -/
def hasFault : Document → Bool
  | .cut => true
  | .unreadable => true
  | .seq items | .list items => anyFault items
  | .map members => anyMemberFault members
  | _ => false

/-- `hasFault` of some item. -/
def anyFault : List Document → Bool
  | [] => false
  | item :: rest => hasFault item || anyFault rest

/-- `hasFault` of some member. -/
def anyMemberFault : List (String × Document) → Bool
  | [] => false
  | (_, value) :: rest => hasFault value || anyMemberFault rest

end

end Document

end PriceOracle
