import PriceOracle.Storage
import PriceOracle.Dict

/-!
# Storage in memory

The backend that keeps its bytes in a map and loses them with the process.
-/

namespace PriceOracle.Storage

/-- The contents of a backend. -/
abbrev Memory := Dict String ByteArray

/-- Answers a request on a map. -/
def Memory.answer : (r : Request) → Memory → r.Reply × Memory
  | .get key, m =>
    (match m.get? key with
      | some bytes => .ok bytes
      | none => .error .notFound, m)
  | .set key value, m => (.ok (), Dict.set key value m)
  | .delete key, m => (.ok (), m.unset key)
  | .holds key, m => (.ok (m.has key), m)

end PriceOracle.Storage
