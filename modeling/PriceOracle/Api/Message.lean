import PriceOracle.Json
import PriceOracle.Api.Route
import PriceOracle.Text.Blank
import PriceOracle.Text.Split

/-!
# Requests and responses

What comes in and goes out at the management interface, and what headers say: the token of the
caller, and whether the body is JSON. A body may be any bytes; `Body.chars` is what the reader of
JSON makes of them.
-/

namespace PriceOracle.Api

/-- The body of a request, which need not be text. -/
structure Body where
  bytes : ByteArray

instance : Coe String Body := ⟨fun text => ⟨text.toUTF8⟩⟩

namespace Body

/-- The size of the largest body that is read. -/
def limit : Nat := 2097152

/-- What stands for a byte that is no part of a character. Between JSON tokens it is malformed, and
a string that holds it ends where it should but cannot be read. -/
def foreign : List Char := "x\\udc00".toList

/-- The characters from a place on. -/
def charsFrom (bytes : ByteArray) (i : Nat) : List Char :=
  if i < bytes.size then
    match bytes.utf8DecodeChar? i with
    | some c => c :: charsFrom bytes (i + c.utf8Size)
    | none => foreign ++ charsFrom bytes (i + 1)
  else []
termination_by bytes.size - i
decreasing_by
  · have := c.utf8Size_pos
    omega
  · omega

/-- The characters of a body. -/
def chars (b : Body) : List Char :=
  match String.fromUTF8? b.bytes with
  | some text => text.toList
  | none => charsFrom b.bytes 0

end Body

/-- A request as it comes in. -/
structure Request where
  method : Method
  uri : String
  headers : List (String × String)
  body : Body

/-- A response; without a JSON body where there is nothing to say. -/
structure Response where
  status : UInt16
  body : Option Json

namespace Response

/-- A response that is nothing but a status. -/
def bare (status : UInt16) : Response := ⟨status, none⟩

def json (status : UInt16) (body : Json) : Response := ⟨status, some body⟩

/-- A response that says what went wrong. -/
def error (status : UInt16) (message : String) : Response :=
  json status (.obj [("error", .str message)])

end Response

namespace Request

/-- A character that a header may be read with. -/
def isVisible (c : Char) : Bool := (32 ≤ c.toNat && c.toNat < 127) || c = '\t'

/-- The first value of a header, when it can be read. -/
def header? (r : Request) (name : String) : Option String :=
  (r.headers.find? fun h => h.1.toLower = name).bind fun h =>
    if h.2.toList.all isVisible then some h.2 else none

/-- The scheme that a token is shown under. -/
def scheme : List Char := "Bearer ".toList

/-- The token that the caller shows. -/
def token? (r : Request) : Option String := do
  let value := (← r.header? "authorization").toList
  if scheme.isPrefixOf value then
    return String.ofList (Text.trim (value.drop scheme.length))
  else none

/-- A character of the words of a media type. -/
def isTokenChar (c : Char) : Bool := c.isAlphanum || "!#$%&'*+-.^_|~\x60".toList.contains c

/-- A parameter of a media type is a name and a value; one that is missing does no harm. -/
def isParameter (cs : List Char) : Bool :=
  let cs := cs.dropWhile (· = ' ')
  let name := cs.takeWhile (· ≠ '=')
  let value := cs.drop (name.length + 1)
  cs.isEmpty || (!name.isEmpty && name.length < cs.length && name.all isTokenChar &&
    (value.all isTokenChar ||
      (2 ≤ value.length && value.head? = some '"' && value.getLast? = some '"')))

/-- The part of a subtype after its last plus sign; none without one that follows something. -/
def suffix? (subtype : List Char) : Option (List Char) :=
  match (Text.splitOn '+' (subtype.drop 1)).reverse with
  | last :: _ :: _ => some last
  | _ => none

/-- A media type that stands for JSON. -/
def isJsonType (value : String) : Bool :=
  match Text.splitOn ';' (value.toList.map Char.toLower) with
  | essence :: parameters =>
    match Text.splitOn '/' essence with
    | [kind, subtype] =>
      kind = "application".toList && !subtype.isEmpty && subtype.all isTokenChar &&
        (subtype = "json".toList || suffix? subtype = some "json".toList) &&
        parameters.all isParameter
    | _ => false
  | [] => false

/-- Whether the body is declared as JSON. -/
def declaresJson (r : Request) : Bool := (r.header? "content-type").any isJsonType

end Request

end PriceOracle.Api
