import PriceOracle.Api.Message
import PriceOracle.Api.Segment
import PriceOracle.Management
import PriceOracle.Oracle.Codec

/-!
# The management interface

`Api.handle` answers requests of operators by management calls. A request is looked at in this
order: place, method, the named oracle, the form of the body, then the call itself with its check
of the caller.
-/

namespace PriceOracle

def OracleView.toJson (v : OracleView) : Json :=
  .obj [("config", v.config.toJson), ("metadata", v.bookkeeping.toJson),
    ("state", .str v.stage.name)]

namespace Api

open Surroundings

/-- The status of a call that fails. -/
def statusOf : ServiceError → UInt16
  | .unauthorized => 401
  | .registry (.notFound _) => 404
  | .registry (.duplicateId _) | .registry (.destinationInUse _ _) => 409
  | .registry (.invalidThreshold _) | .registry (.invalidDecimals _ _) => 422
  | .registry (.storage _) => 500
  | .publish _ => 502

/-- The response to the outcome of a call. -/
def respond (write : α → Response) : Except ServiceError α → Response
  | .ok a => write a
  | .error e => .error (statusOf e) e.message

/-- Answers by a call. -/
def call (write : α → Response) (c : Management.Call α) : Action Response := do
  return respond write (← c.run)

/-- Goes on with the oracle that a segment names. -/
def withOracle (segment : String) (next : OracleId → Action Response) : Action Response :=
  match Segment.decode? segment with
  | some id => next id
  | none => return .bare 400

/-- Goes on with the configuration in the body. -/
def withConfig (r : Request) (next : OracleConfig → Action Response) : Action Response :=
  if !r.declaresJson then return .bare 415
  else if Body.limit < r.body.bytes.size then return .bare 413
  else
    let reading := Json.read r.body.chars
    match OracleConfig.decode reading.document, reading.complete with
    | .ok c, true => next c
    | .fault .shape, _ => return .bare 422
    | _, _ => return .bare 400

/-- How many oracles there are, and how many are halted. -/
def health : Action Response := do
  let views ← Management.list
  let now ← unixTime
  let halted := (views.filter fun v => v.bookkeeping.isHalted).length
  return .json 200 (.obj [("status", .str "ok"), ("oracles", .nat views.length),
    ("halted", .nat halted), ("timestamp", .nat now.toNat)])

def list : Action Response := do
  return .json 200 (.arr ((← Management.list).map OracleView.toJson))

def register (auth : Authorization) (r : Request) : Action Response :=
  withConfig r fun c => call (fun v => .json 201 v.toJson) do
    let id ← Management.register auth r.token? c
    Management.get id

def get (id : OracleId) : Action Response :=
  call (fun v => .json 200 v.toJson) (Management.get id)

def update (auth : Authorization) (r : Request) (id : OracleId) : Action Response :=
  withConfig r fun c =>
    if c.id ≠ id then
      return .error 400 s!"body id '{c.id}' does not match path id '{id}'"
    else call (fun v => .json 200 v.toJson) do
      Management.update auth r.token? c
      Management.get id

def remove (auth : Authorization) (r : Request) (id : OracleId) : Action Response :=
  call (fun _ => .bare 204) (Management.remove auth r.token? id)

def resync (auth : Authorization) (r : Request) (id : OracleId) : Action Response :=
  call (fun b => .json 200 b.toJson) (Management.resync auth r.token? id)

def latestRound (id : OracleId) : Action Response :=
  call (fun found => match found with
    | some r => .json 200 r.toJson
    | none => .error 404 "no round published yet") (Management.latestRound id)

/-- Answers a request at a place. -/
def handleAt (auth : Authorization) (r : Request) : Route → Method → Action Response
  | .health, .get => health
  | .oracles, .get => list
  | .oracles, .post => register auth r
  | .oracle segment, .get => withOracle segment get
  | .oracle segment, .put => withOracle segment (update auth r)
  | .oracle segment, .delete => withOracle segment (remove auth r)
  | .resync segment, .post => withOracle segment (resync auth r)
  | .latestRound segment, .get => withOracle segment latestRound
  | _, _ => return .bare 405

/-- Answers a request. A request for the head alone is answered without a body. -/
def handle (auth : Authorization) (r : Request) : Action Response :=
  match Route.ofPath? (Route.pathOf r.uri) with
  | none => return .bare 404
  | some route =>
    match r.method with
    | .head => do return { ← handleAt auth r route .get with body := none }
    | method => handleAt auth r route method

end Api

end PriceOracle
