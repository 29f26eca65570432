import PriceOracle.Source.Read

/-!
# Downloads

What becomes of a request to a web server, piece by piece, and the answer that it amounts to. A
body that grows beyond the longest one allowed is refused, whatever length was declared.
-/

namespace PriceOracle.Source

/-- What a connection to a web server delivers. -/
inductive Download where
  /-- No answer came before the client gave up. -/
  | timedOut
  /-- There was no answer at all. -/
  | failed (reason : String)
  /-- A status, the declared length of the body, its pieces, and the reason why it broke off. -/
  | answered (status : UInt16) (declared : Option Nat) (pieces : List ByteArray)
      (broken : Option String)

namespace Download

/-- The refusal of a body that is too long. -/
def tooLong (url : String) (maxBody : Nat) : SourceError :=
  .malformed s!"response from {url} exceeds {maxBody} bytes"

/-- Collects the pieces of a body behind what was read before. -/
def collect (url : String) (maxBody : Nat) (broken : Option String) :
    ByteArray → List ByteArray → Except SourceError ByteArray
  | read, [] =>
    match broken with
    | some reason => .error (.transport s!"Failed to read body: {reason}")
    | none => .ok read
  | read, piece :: rest =>
    if maxBody < read.size + piece.size then .error (tooLong url maxBody)
    else collect url maxBody broken (read ++ piece) rest

/-- The answer that a download amounts to. -/
def answer (url : String) (maxBody : Nat) : Download → Except SourceError HttpAnswer
  | timedOut => .error (.transport s!"request to {url} timed out")
  | failed reason => .error (.transport s!"HTTP request failed: {reason}")
  | answered status declared pieces broken =>
    if declared.any (maxBody < ·) then .error (tooLong url maxBody)
    else (collect url maxBody broken ByteArray.empty pieces).map (⟨status, ·⟩)

end Download

end PriceOracle.Source
