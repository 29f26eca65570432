import PriceOracle.Config.Error
import PriceOracle.Text.Split

/-!
# Configuration formats

The format of a configuration file is told by the extension of its name.
-/

namespace PriceOracle.Config

/-- A format of configuration text. -/
inductive Format where
  | toml
  | json
  | yaml
  deriving DecidableEq

/-- The name of a format. -/
def Format.name : Format → String
  | toml => "Toml"
  | json => "Json"
  | yaml => "Yaml"

/-- The last component of a path; none where it names no file. -/
def fileName? (path : List Char) : Option (List Char) :=
  let parts := (Text.splitOn '/' path).filter fun p => p ≠ [] ∧ p ≠ ['.']
  parts.getLast?.filter (· ≠ ['.', '.'])

/-- What follows the last dot of a file name that does not start with it. -/
def extension? (path : List Char) : Option (List Char) := do
  let name ← fileName? path
  let pieces := Text.splitOn '.' name
  let last ← pieces.getLast?
  if pieces.dropLast.all (·.isEmpty) && pieces.length ≤ 2 then none else some last

/-- The format of an extension. -/
def formatOf? (extension : String) : Option Format :=
  if extension = "toml" then some .toml
  else if extension = "json" then some .json
  else if extension = "yaml" ∨ extension = "yml" then some .yaml
  else none

/-- The format of the file at a path. -/
def formatAt (path : String) : Except ConfigError Format :=
  match (extension? path.toList).bind fun e => formatOf? (String.ofList e) with
  | some f => .ok f
  | none => .error (.unparsable s!"Unsupported config format: {path}")

end PriceOracle.Config
