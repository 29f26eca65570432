import PriceOracle.Document.Decode
import PriceOracle.Event

/-!
# The JSON form of oracles, rounds and events

Each type has `toJson`, its JSON value, and `decode`, which reads the value back from a document.
Decimals are strings, addresses lower-case hexadecimal strings, and hashes arrays of bytes.
-/

namespace PriceOracle

namespace Decimal

def toJson (d : Decimal) : Json := .str d.text

end Decimal

namespace TxHash

def toJson (h : TxHash) : Json := .arr (h.bytes.map fun b => .nat b.toNat)

def decode (d : Document) : Decoded TxHash := TxHash.mk <$> d.asList Document.asUInt8

end TxHash

namespace Endpoint

def toJson (e : Endpoint) : Json :=
  .obj ([("chain_id", .nat e.chainId.toNat), ("hostname", .str e.url)] ++
    match e.credentialPath with
    | some path => [("credential_path", .str path)]
    | none => [])

def decode : Document → Decoded Endpoint :=
  Record.decode ["chain_id", "hostname", "credential_path"] fun r =>
    Endpoint.mk <$> r.required "chain_id" Document.asUInt64
      <*> r.required "hostname" Document.asString
      <*> r.optional "credential_path" Document.asString

end Endpoint

namespace Source

def toJson : Source → Json
  | .http url path =>
    .obj [("type", .str "http"), ("url", .str url), ("json_path", .str path)]
  | .contract endpoint target method =>
    .obj [("type", .str "evm"), ("provider", endpoint.toJson),
      ("target_address", .str target.text), ("method", .str method)]

/-- The fields of an HTTP source. -/
def decodeHttp : Document → Decoded Source :=
  Record.decode ["url", "json_path"] fun r =>
    Source.http <$> r.required "url" Document.asString <*> r.required "json_path" Document.asString

/-- The fields of a contract source. -/
def decodeContract : Document → Decoded Source :=
  Record.decode ["provider", "target_address", "method"] fun r =>
    Source.contract <$> r.required "provider" Endpoint.decode
      <*> r.required "target_address" Document.asAddress
      <*> r.required "method" Document.asString

/-- The fields of the kind of source that a tag names. -/
def decodeTagged (tag : Document) (fields : Document) : Decoded Source :=
  tag.asString.andThen fun name =>
    if name = "http" then decodeHttp fields.settled
    else if name = "evm" then decodeContract fields.settled
    else .fault .shape

/-- A source carries the tag of its kind among its fields, or in front of them in a sequence. The
whole of it is read before the tag is looked at. -/
def decode (d : Document) : Decoded Source :=
  if d.hasFault then .fault .cut
  else
    Decoded.shapeOnly <| match d.resolved with
      | .map members =>
        match members.filter (·.1 = "type") with
        | [(_, tag)] => decodeTagged tag (.map (members.filter (·.1 ≠ "type")))
        | _ => .fault .shape
      | .seq (tag :: fields) | .list (tag :: fields) => decodeTagged tag (.seq fields)
      | _ => .fault .shape

end Source

namespace Destination

def toJson (d : Destination) : Json :=
  .obj [("contract", .str d.contract.text), ("provider", d.endpoint.toJson),
    ("decimals", .nat d.decimals.toNat)]

def decode : Document → Decoded Destination :=
  Record.decode ["contract", "provider", "decimals"] fun r =>
    Destination.mk <$> r.required "contract" Document.asAddress
      <*> r.required "provider" Endpoint.decode
      <*> r.withDefault "decimals" defaultDecimals Document.asUInt32

end Destination

namespace OracleConfig

def toJson (c : OracleConfig) : Json :=
  .obj [("id", .str c.id), ("source", c.source.toJson), ("threshold", .nat c.threshold.toNat),
    ("destination", c.destination.toJson)]

def decode : Document → Decoded OracleConfig :=
  Record.decode ["id", "source", "threshold", "destination"] fun r =>
    OracleConfig.mk <$> r.required "id" Document.asString
      <*> r.required "source" Source.decode
      <*> r.required "threshold" Document.asUInt64
      <*> r.required "destination" Destination.decode

end OracleConfig

namespace Pending

def toJson (p : Pending) : Json :=
  .obj [("tx_hash", p.txHash.toJson), ("round_hint", .nat p.round.toNat),
    ("answer", p.answer.toJson)]

def decode : Document → Decoded Pending :=
  Record.decode ["tx_hash", "round_hint", "answer"] fun r =>
    Pending.mk <$> r.required "tx_hash" TxHash.decode
      <*> r.required "round_hint" Document.asUInt64
      <*> r.required "answer" Document.asDecimal

end Pending

namespace Bookkeeping

def toJson (b : Bookkeeping) : Json :=
  .obj [("last_attempt_time", .ofOption (fun t => .nat t.toNat) b.lastAttempt),
    ("last_published_round", .nat b.lastRound.toNat),
    ("last_published_value", .ofOption Decimal.toJson b.lastValue),
    ("consecutive_failures", .nat b.failures.toNat),
    ("cycles_since_last_publish", .nat b.cycles.toNat),
    ("halted", .ofOption .str b.halted),
    ("pending", .ofOption Pending.toJson b.pending)]

def decode : Document → Decoded Bookkeeping :=
  Record.decode ["last_attempt_time", "last_published_round", "last_published_value",
      "consecutive_failures", "cycles_since_last_publish", "halted", "pending"] fun r =>
    Bookkeeping.mk <$> r.nullable "last_attempt_time" Document.asUInt64
      <*> r.required "last_published_round" Document.asUInt64
      <*> r.nullable "last_published_value" Document.asDecimal
      <*> r.required "consecutive_failures" Document.asUInt32
      <*> r.required "cycles_since_last_publish" Document.asUInt64
      <*> r.nullable "halted" Document.asString
      <*> r.nullable "pending" Pending.decode

end Bookkeeping

namespace Row

def toJson (r : Row) : Json :=
  .obj [("config", r.config.toJson), ("metadata", r.bookkeeping.toJson)]

def decode : Document → Decoded Row :=
  Record.decode ["config", "metadata"] fun r =>
    Row.mk <$> r.required "config" OracleConfig.decode
      <*> r.withDefault "metadata" Bookkeeping.initial Bookkeeping.decode

end Row

namespace RoundRecord

def toJson (r : RoundRecord) : Json :=
  .obj [("round_id", .nat r.round.toNat), ("answer", r.answer.toJson),
    ("timestamp", .nat r.timestamp.toNat)]

def decode : Document → Decoded RoundRecord :=
  Record.decode ["round_id", "answer", "timestamp"] fun r =>
    RoundRecord.mk <$> r.required "round_id" Document.asUInt64
      <*> r.required "answer" Document.asDecimal
      <*> r.required "timestamp" Document.asUInt64

end RoundRecord

namespace FeedRound

def toJson (r : FeedRound) : Json :=
  .obj [("round_id", .nat r.round.toNat), ("answer", .str r.answer.text),
    ("started_at", .nat r.startedAt.toNat), ("updated_at", .nat r.updatedAt.toNat),
    ("answered_in_round", .nat r.answeredIn.toNat)]

end FeedRound

namespace Receipt

def toJson (r : Receipt) : Json :=
  .obj [("hash", r.hash.toJson), ("block_number", .nat r.block.toNat), ("success", .bool r.success)]

def decode : Document → Decoded Receipt :=
  Record.decode ["hash", "block_number", "success"] fun r =>
    Receipt.mk <$> r.required "hash" TxHash.decode
      <*> r.required "block_number" Document.asUInt64
      <*> r.required "success" Document.asBool

end Receipt

namespace Event

/-- The name of an event and its fields; the hash of a submission is written by `writeHash`. -/
def parts (writeHash : TxHash → Json) : Event → String × List (String × Json)
  | .registered id => ("Registered", [("oracle_id", .str id)])
  | .updated id => ("Updated", [("oracle_id", .str id)])
  | .removed id => ("Removed", [("oracle_id", .str id)])
  | .fetchFailed id reason failures =>
    ("FetchFailed", [("oracle_id", .str id), ("reason", .str reason),
      ("consecutive_failures", .nat failures.toNat)])
  | .valueRejected id value reason =>
    ("ValueRejected", [("oracle_id", .str id), ("value", value.toJson), ("reason", .str reason)])
  | .publishSubmitted id round txHash =>
    ("PublishSubmitted", [("oracle_id", .str id), ("round_hint", .nat round.toNat),
      ("tx_hash", writeHash txHash)])
  | .roundPublished id record =>
    ("RoundPublished", [("oracle_id", .str id), ("record", record.toJson)])
  | .publishFailed id round reason retryable =>
    ("PublishFailed", [("oracle_id", .str id), ("round_hint", .nat round.toNat),
      ("reason", .str reason), ("retryable", .bool retryable)])
  | .halted id reason => ("Halted", [("oracle_id", .str id), ("reason", .str reason)])
  | .resynced id round =>
    ("Resynced", [("oracle_id", .str id), ("round_id", .nat round.toNat)])

def toJson (e : Event) : Json :=
  let (name, fields) := e.parts TxHash.toJson
  .obj [(name, .obj fields)]

/-- The fields of the event of a name. -/
def decodeNamed (name : String) : Document → Decoded Event :=
  let id (r : Record) := r.required "oracle_id" Document.asString
  let reason (r : Record) := r.required "reason" Document.asString
  let round (r : Record) := r.required "round_hint" Document.asUInt64
  let alone (build : OracleId → Event) := Record.decode ["oracle_id"] fun r => build <$> id r
  match name with
  | "Registered" => alone .registered
  | "Updated" => alone .updated
  | "Removed" => alone .removed
  | "FetchFailed" => Record.decode ["oracle_id", "reason", "consecutive_failures"] fun r =>
    Event.fetchFailed <$> id r <*> reason r <*> r.required "consecutive_failures" Document.asUInt32
  | "ValueRejected" => Record.decode ["oracle_id", "value", "reason"] fun r =>
    Event.valueRejected <$> id r <*> r.required "value" Document.asDecimal <*> reason r
  | "PublishSubmitted" => Record.decode ["oracle_id", "round_hint", "tx_hash"] fun r =>
    Event.publishSubmitted <$> id r <*> round r <*> r.required "tx_hash" TxHash.decode
  | "RoundPublished" => Record.decode ["oracle_id", "record"] fun r =>
    Event.roundPublished <$> id r <*> r.required "record" RoundRecord.decode
  | "PublishFailed" => Record.decode ["oracle_id", "round_hint", "reason", "retryable"] fun r =>
    Event.publishFailed <$> id r <*> round r <*> reason r <*> r.required "retryable" Document.asBool
  | "Halted" => Record.decode ["oracle_id", "reason"] fun r => Event.halted <$> id r <*> reason r
  | "Resynced" => Record.decode ["oracle_id", "round_id"] fun r =>
    Event.resynced <$> id r <*> r.required "round_id" Document.asUInt64
  | _ => fun _ => .fault .shape

/-- An event is a map from its name to its named fields. -/
def decode (d : Document) : Decoded Event :=
  match d with
  | .map [(name, .map fields)] => decodeNamed name (.map fields)
  | d => d.unexpected

end Event

end PriceOracle
