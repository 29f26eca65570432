import PriceOracle.Program
import PriceOracle.Oracle
import PriceOracle.Duration
import PriceOracle.Json.Reader
import PriceOracle.Source.Path
import PriceOracle.Source.Signature

/-!
# Reading sources

A read makes one request, to a web server or to a node, and takes a decimal out of the answer.
Requests carry a time limit; a reply that does not come in time is none.
-/

namespace PriceOracle.Source

/-- What a web server answers. -/
structure HttpAnswer where
  status : UInt16
  body : ByteArray

/-- What a read can ask for. -/
inductive Request where
  | get (url : String) (limit : Duration)
  | call (endpoint : Endpoint) (target : Address) (data : List UInt8) (limit : Duration)

/-- The answer to each request; none when it takes longer than the limit. -/
def Request.Reply : Request → Type
  | get _ _ => Option (Except SourceError HttpAnswer)
  | call _ _ _ _ => Option (Except SourceError (List UInt8))

/-- The interface to sources. -/
def interface : Interface := ⟨Request, Request.Reply⟩

/-- The outcome of a request with a limit. -/
def withinLimit (limit : Duration) : Option (Except SourceError α) → Except SourceError α
  | none => .error (.timeout limit)
  | some outcome => outcome

/-- The decimal at a path of a web server's answer. -/
def ofAnswer (a : HttpAnswer) (path : String) : Except SourceError Decimal :=
  if 200 ≤ a.status ∧ a.status < 300 then
    match Json.ofBytes? a.body with
    | some document => document.extract path
    | none => .error (.malformed "invalid JSON: the body is not a document")
  else .error (.httpStatus a.status)

/-- The integer in the first word of a call's output. -/
def ofOutput (output : List UInt8) : Except SourceError Decimal :=
  if output.length < 32 then
    .error (.malformed s!"expected a 32-byte word, got {output.length} bytes")
  else match Decimal.ofUint256 (Uint256.ofBytes (output.take 32)) with
    | .ok d => .ok d
    | .error e => .error (.overflow e.message)

/-- Reads a source once. -/
def read (limit : Duration) : Source → Program interface (Except SourceError Decimal)
  | .http url path => do
    let reply ← Program.request (I := interface) (.get url limit)
    return do ofAnswer (← withinLimit limit reply) path
  | .contract endpoint target method =>
    match Signature.selector method with
    | .error e => return .error e
    | .ok selector => do
      let reply ← Program.request (I := interface) (.call endpoint target selector limit)
      return do ofOutput (← withinLimit limit reply)

end PriceOracle.Source
