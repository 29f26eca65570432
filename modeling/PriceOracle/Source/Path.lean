import PriceOracle.Json
import PriceOracle.Binary64.Numeral
import PriceOracle.Text.Blank
import PriceOracle.Text.Split
import PriceOracle.Decimal.Numeral
import PriceOracle.Source.Error

/-!
# Paths into documents

A path such as `data.prices.0.usd` names a node of a JSON document: each segment is the name of a
member or, in an array, an index. Blanks around a path do not count, and the empty path names the
whole document.

* `Json.navigate` finds the node of a path.
* `Json.numeric` takes the decimal out of a number or of a string that holds one.
* `Json.extract` does both.
-/

namespace PriceOracle.Json

/-- One step from a node along a segment of a path. -/
def step? (node : Json) (segment : List Char) : Option Json :=
  match node with
  | .obj _ => node.member? (String.ofList segment)
  | .arr items => (Digits.bounded (2 ^ 64) segment).toOption.bind (items[·]?)
  | _ => none

/-- The node at the end of a path of segments. -/
def walk? : Json → List (List Char) → Option Json
  | node, [] => some node
  | node, segment :: rest => (step? node segment).bind (walk? · rest)

/-- The segments of a path without blanks around it. -/
def segments (path : List Char) : List (List Char) :=
  if path.isEmpty then [] else Text.splitOn '.' path

/-- The node at a path. -/
def navigate (document : Json) (path : String) : Except SourceError Json :=
  let path := Text.trim path.toList
  match walk? document (segments path) with
  | some node => .ok node
  | none => .error (.pathNotFound (String.ofList path))

/-- The decimal that a numeral writes. A numeral that is well formed and too large or too fine
overflows; anything else is no numeral. -/
def decimalOf (raw : List Char) : Except SourceError Decimal :=
  match Decimal.ofNumeral? raw with
  | some d => .ok d
  | none =>
    if (Binary64.ofNumeral? raw).isSome then .error (.overflow (String.ofList raw))
    else .error (.notNumeric s!"'{String.ofList raw}'")

/-- The name of a kind of node. -/
def kindName : Json → String
  | .null => "null"
  | .bool _ => "boolean"
  | .int _ | .float _ => "number"
  | .str _ => "string"
  | .arr _ => "array"
  | .obj _ => "object"

/-- The decimal that a node holds. -/
def numeric : Json → Except SourceError Decimal
  | .int n => decimalOf (intText n)
  | .float x => decimalOf x.jsonText
  | .str s => decimalOf (Text.trim s.toList)
  | other => .error (.notNumeric s!"found {other.kindName}")

/-- The decimal at a path. -/
def extract (document : Json) (path : String) : Except SourceError Decimal := do
  numeric (← navigate document path)

end PriceOracle.Json
