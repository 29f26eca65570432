import PriceOracle.Text.Split

/-!
# Routes

The places of the management interface. A place is recognized by the segments of its path as they
are written; a segment that names an oracle is never empty, and a slash at the end makes another
path.
-/

namespace PriceOracle.Api

/-- A method of a request. -/
inductive Method where
  | get
  | head
  | post
  | put
  | delete
  | other (name : String)
  deriving DecidableEq

/-- The method of a name. Names are told apart by case. -/
def Method.ofName : String → Method
  | "GET" => get
  | "HEAD" => head
  | "POST" => post
  | "PUT" => put
  | "DELETE" => delete
  | name => other name

/-- A place; an oracle is named by the segment as it is written. -/
inductive Route where
  | health
  | oracles
  | oracle (segment : String)
  | resync (segment : String)
  | latestRound (segment : String)
  deriving DecidableEq

namespace Route

/-- The path of a target: without scheme and host, and up to a query or a fragment. -/
def pathOf (uri : String) : List Char :=
  let cs := uri.toList.takeWhile fun c => c ≠ '?' && c ≠ '#'
  if cs.head? = some '/' then cs
  else match cs.dropWhile (· ≠ ':') with
    | ':' :: '/' :: '/' :: rest =>
      let path := rest.dropWhile (· ≠ '/')
      if path.isEmpty then ['/'] else path
    | _ => cs

/-- The segment of an oracle, which is not empty. -/
def named (build : String → Route) (segment : List Char) : Option Route :=
  if segment.isEmpty then none else some (build (String.ofList segment))

/-- The place of the segments after the first slash. -/
def ofSegments? : List (List Char) → Option Route
  | [place] =>
    match String.ofList place with
    | "health" => some health
    | "oracles" => some oracles
    | _ => none
  | [place, segment] => if place = "oracles".toList then named oracle segment else none
  | [place, segment, verb] =>
    if place = "oracles".toList ∧ verb = "resync".toList then named resync segment else none
  | [place, segment, rounds, which] =>
    if place = "oracles".toList ∧ rounds = "rounds".toList ∧ which = "latest".toList then
      named latestRound segment
    else none
  | _ => none

/-- The place of a path. -/
def ofPath? (path : List Char) : Option Route :=
  match path with
  | '/' :: rest => ofSegments? (Text.splitOn '/' rest)
  | _ => none

/-- The path of a place. -/
def path : Route → String
  | health => "/health"
  | oracles => "/oracles"
  | oracle segment => "/oracles/" ++ segment
  | resync segment => "/oracles/" ++ segment ++ "/resync"
  | latestRound segment => "/oracles/" ++ segment ++ "/rounds/latest"

end Route

end PriceOracle.Api
