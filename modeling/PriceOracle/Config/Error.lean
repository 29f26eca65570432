/-!
# Failed configurations

Why no configuration is loaded.
-/

namespace PriceOracle

/-- Why no configuration is loaded. -/
inductive ConfigError where
  | fileNotFound (path : String)
  | unparsable (reason : String)
  | invalid (reason : String)
  | unsetVariable (name : String)
  | unreadable (reason : String)
  deriving DecidableEq

/-- The wording of a failed configuration. -/
def ConfigError.message : ConfigError → String
  | fileNotFound path => s!"File not found: {path}"
  | unparsable reason => s!"Parse error: {reason}"
  | invalid reason => s!"Validation error: {reason}"
  | unsetVariable name => s!"Environment variable not found: {name}"
  | unreadable reason => s!"IO error: {reason}"

end PriceOracle
