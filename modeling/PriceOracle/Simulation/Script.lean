import PriceOracle.Json.Access
import PriceOracle.Simulation.World
import PriceOracle.Text.Digits

/-!
# Scripts

What the sources and feeds of a simulated world answer, and what happens to them, as written in
JSON.
-/

namespace PriceOracle.Simulation.Script

/-- The delay of an answer. -/
def delay (j : Json) : Duration := .ofMillis (j.natField "delay_ms" 0)

/-- A failed read. -/
def sourceError (j : Json) : SourceError :=
  let message := j.textField "message"
  match j.textField "kind" with
  | "Timeout" => .timeout (.ofMillis (j.natField "ms" 0))
  | "HttpStatus" => .httpStatus (UInt16.ofNat (j.natField "status" 0))
  | "Malformed" => .malformed message
  | "PathNotFound" => .pathNotFound message
  | "NotNumeric" => .notNumeric message
  | "Overflow" => .overflow message
  | "InvalidSource" => .invalidSource message
  | _ => .transport message

/-- A failed publication. -/
def publishError (j : Json) : PublishError :=
  let message := j.textField "message"
  match j.textField "kind" with
  | "RoundConflict" => .roundConflict (j.wordField "expected") (j.wordField "actual")
  | "Unauthorized" => .unauthorized message
  | "InvalidDestination" => .invalidDestination message
  | "Reverted" => .reverted message
  | "ValueOutOfRange" => .valueOutOfRange message
  | "Timeout" => .timeout message
  | "Transient" => .transient message
  | "Unconfirmed" => .unconfirmed (j.textField "tx_hash") message
  | _ => .network message

/-- Bytes in hexadecimal digits; none where they are malformed. -/
def hexBytes (s : String) : List UInt8 := (Hex.decode? (Hex.stripMark s.toList)).getD []

/-- The bytes of a member, as text or in hexadecimal digits. -/
def bytes? (j : Json) (name : String) : Option ByteArray :=
  match j.textField? (name ++ "_hex"), j.textField? name with
  | some hex, _ => some (ByteArray.mk (hexBytes hex).toArray)
  | none, some s => some s.toUTF8
  | none, none => none

/-- The answer of a page. -/
def page (j : Json) : Scripted Source.HttpAnswer :=
  ⟨delay j, match j.member? "error" with
    | some e => .error (sourceError e)
    | none => .ok ⟨UInt16.ofNat (j.natField "status" 200),
        (bytes? j "body").getD ByteArray.empty⟩⟩

/-- The answer of a contract. -/
def contract (j : Json) : Scripted (List UInt8) :=
  ⟨delay j, match j.member? "error" with
    | some e => .error (sourceError e)
    | none => .ok (hexBytes (j.textField "output"))⟩

/-- The address of twenty zeros. -/
def noAddress : Address := ⟨List.replicate 20 0, rfl⟩

/-- The key of a contract: its digits, then the chain after an `@`. -/
def key (s : String) : FeedKey :=
  let cs := s.toList
  let digits := cs.takeWhile (· ≠ '@')
  ⟨UInt64.ofNat (Digits.toNat (cs.drop (digits.length + 1))),
    (Address.ofChars? digits).getD noAddress⟩

/-- The written form of the key of a contract. -/
def keyText (k : FeedKey) : String := s!"{String.ofList k.contract.digits}@{k.chainId}"

/-- The integer of a member. -/
def uint256 (j : Json) (name : String) : Uint256 :=
  (Uint256.ofText? (j.textField name)).getD .zero

/-- A round. -/
def round (j : Json) : FeedRound :=
  let round := j.wordField "round_id"
  ⟨round, uint256 j "answer", j.wordField "started_at", j.wordField "updated_at",
    if (j.member? "answered_in_round").isSome then j.wordField "answered_in_round" else round⟩

/-- Something that happens to a feed. -/
def act (j : Json) (f : PriceFeed) : PriceFeed :=
  match j.textField "action" with
  | "push" => f.append (uint256 j "answer")
  | "fail" => f.fail (j.textField "method") (publishError (j.field "with")) (j.natField "times" 1)
  | "hold" => { f with holding := j.boolField "on" false }
  | "revert_next" => { f with revertNext := true }
  | "alter_next" => { f with alterNext := some (uint256 j "answer") }
  | "mine" => f.mineAll (j.boolField "success" true)
  | "drop" => f.dropAll
  | "set_rounds" => { f with rounds := (j.listField "rounds").map round }
  | _ => f

/-- A failure of storage that waits for its request. -/
def storageFailure (j : Json) : PlannedFailure := ⟨j.textField "method", j.natField "skip" 0⟩

/-- A publication in flight. -/
def pending (j : Json) : Pending :=
  ⟨⟨hexBytes (j.textField "tx_hash")⟩, j.wordField "round_hint",
    ((Document.ofJson (j.field "answer")).asDecimal.toOption).getD .zero⟩

/-- Bookkeeping with the members of an object in the place of its own. -/
def bookkeeping? (j : Json) (b : Bookkeeping) : Option Bookkeeping :=
  let merged := b.toJson.members.map fun (k, v) => (k, (j.member? k).getD v)
  (Bookkeeping.decode (Document.ofJson (.obj merged))).toOption

/-- The bytes of a record: a text as it is, any other value as JSON. -/
def recordBytes : Json → ByteArray
  | .str text => text.toUTF8
  | j => j.text.toUTF8

/-- Records by their keys. -/
def records (j : Json) : Storage.Memory := j.members.map fun (key, v) => (key, recordBytes v)

/-- The records as JSON, where they are. -/
def ofRecords (m : Storage.Memory) : Json :=
  .obj (m.map fun (key, bytes) => (key, match Json.ofBytes? bytes with
    | some j => j
    | none => .str ((String.fromUTF8? bytes).getD "")))

/-- The files under a directory. The directory itself is there, too. -/
def files (dir : String) (j : Json) : Files :=
  (Path.ofText dir ++ [""], ByteArray.empty) :: j.members.map fun (name, v) =>
    (Path.ofText (dir ++ "/" ++ name), v.asText.toUTF8)

/-- Sets what the pages and the contracts of a world answer. -/
def sources (pages contracts : Json) (w : World) : World :=
  { w with
    pages := pages.members.map fun (url, r) => (url, page r)
    contracts := contracts.members.map fun (k, r) => (key k, contract r) }

/-- The name of a request to the outside as it is written down, by which requests are sorted, and
its parts. -/
def requestParts : Source.Request ⊕ Feed.Request → String × List (String × Json)
  | .inl (.get url _) => (url, [("call", .str "http_get"), ("url", .str url)])
  | .inl (.call endpoint target data _) =>
    let place := keyText ⟨endpoint.chainId, target⟩
    (place, [("call", .str "evm_call"), ("target", .str place), ("hostname", .str endpoint.url),
      ("calldata", .str (Hex.marked data))])
  | .inr r =>
    let place := keyText r.destination.key
    let more : List (String × Json) := match r with
      | .latestRound _ => []
      | .roundData _ round => [("round_id", .nat round.toNat)]
      | .submit _ answer => [("answer", .str answer.text)]
      | .receipt _ hash | .isKnown _ hash => [("hash", .str hash.short)]
      | .confirmation _ hash depth =>
        [("hash", .str hash.short), ("confirmations", .nat depth.toNat)]
    (place, [("call", .str (methodName r)), ("feed", .str place)] ++ more)

/-- A request to the outside, with the stage of the oracle that it concerns. -/
def ofCall (c : Call) : String × Json :=
  let (place, parts) := requestParts c.request
  (place, .obj (parts ++ match c.stage with
    | some s => [("state", .str s.name)]
    | none => []))

/-- Values in the order of their keys. -/
def sortedBy (key : α → String) (xs : List α) : List α :=
  xs.mergeSort fun a b => decide (key a ≤ key b)

/-- The requests to the outside so far, sorted by place, and the world without them. -/
def takeCalls (w : World) : List Json × World :=
  ((sortedBy (·.1) (w.calls.reverse.map ofCall)).map (·.2), { w with calls := [] })

end PriceOracle.Simulation.Script
