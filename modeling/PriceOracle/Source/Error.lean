import PriceOracle.Duration

/-!
# Failed reads

Why a source yields no value.
-/

namespace PriceOracle

/-- Why a source yields no value. -/
inductive SourceError where
  | timeout (limit : Duration)
  | httpStatus (status : UInt16)
  | transport (reason : String)
  | malformed (reason : String)
  | pathNotFound (path : String)
  | notNumeric (found : String)
  | overflow (found : String)
  | invalidSource (reason : String)
  deriving DecidableEq

/-- The wording of a failed read. -/
def SourceError.message : SourceError → String
  | timeout limit => s!"Fetch timed out after {limit.text}"
  | httpStatus status => s!"Source answered with HTTP status {status}"
  | transport reason => s!"Transport error: {reason}"
  | malformed reason => s!"Malformed response: {reason}"
  | pathNotFound path => s!"Path not found: {path}"
  | notNumeric found => s!"Value is not numeric: {found}"
  | overflow found => s!"Value exceeds numeric precision: {found}"
  | invalidSource reason => s!"Invalid source: {reason}"

end PriceOracle
