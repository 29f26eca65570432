import PriceOracle.Config.Codec
import PriceOracle.Config.Check
import PriceOracle.Config.Format
import PriceOracle.Config.Substitution
import PriceOracle.Directory
import PriceOracle.Json.Reader
import PriceOracle.Toml.Reader
import PriceOracle.Yaml.Reader
import PriceOracle.Text.Digits

/-!
# Loading configurations

A configuration file is read, its environment references are replaced, and the text is parsed in
the format of its name. A few variables of the environment then replace single values, and the
result is checked.
-/

namespace PriceOracle

/-- What a configuration is loaded from: variables, and files by path. -/
structure Environment where
  lookup : String → Option String
  read : String → Except FileError ByteArray

namespace Config

/-- The wording of a text that is no configuration. -/
def malformed : ConfigError := .unparsable "the text is not a configuration"

/-- The document of a text in a format. -/
def document? (format : Format) (text : List Char) : Option Document :=
  match format with
  | .toml => Toml.read? text
  | .json =>
    let reading := Json.read text
    if reading.complete then some reading.document else none
  | .yaml => Yaml.read? text

/-- Replaces the references of a text and parses it. -/
def parse (lookup : String → Option String) (format : Format) (text : List Char) :
    Except ConfigError Config := do
  let text ← substitute lookup text
  match (document? format text).map Config.decode with
  | some (.ok c) => .ok c
  | _ => .error malformed

/-- The prefix of the variables that replace values. -/
def defaultPrefix : String := "ORACLE_"

/-- Reads an integer out of a variable. -/
def overrideInteger (what : String) (bound : Nat) (value : String) : Except ConfigError Nat :=
  match Digits.bounded bound value.toList with
  | .ok n => .ok n
  | .error e => .error (.invalid s!"Invalid {what}: {e.message}")

/-- Replaces the tick interval. -/
def overrideInterval (value : Option String) (c : Config) : Except ConfigError Config :=
  match value with
  | none => .ok c
  | some text => do
    let n ← overrideInteger "tick interval" (2 ^ 64) text
    return { c with schedule := { c.schedule with tickInterval := UInt64.ofNat n } }

/-- Replaces the path of the storage. -/
def overrideStorage (value : Option String) (c : Config) : Config :=
  match value with
  | none => c
  | some path =>
    let settings := c.storage.settings.set "storage_path" (.string path)
    { c with storage := { c.storage with settings } }

/-- Replaces the port of the management interface. -/
def overridePort (value : Option String) (c : Config) : Except ConfigError Config :=
  match value with
  | none => .ok c
  | some text => do
    let n ← overrideInteger "API port" (2 ^ 16) text
    return { c with api := some { c.api.getD ApiConfig.default with port := UInt16.ofNat n } }

/-- Replaces the token of the owner. -/
def overrideToken (value : Option String) (c : Config) : Config :=
  match value with
  | none => c
  | some token =>
    { c with api := some { c.api.getD ApiConfig.default with ownerToken := some token } }

/-- The variables that replace values, without their prefix. -/
def overrideNames : List String :=
  ["TICK_INTERVAL_SECS", "STORAGE_PATH", "API_PORT", "API_OWNER_TOKEN"]

/-- Replaces the values that variables give anew. -/
def override (lookup : String → Option String) (c : Config) : Except ConfigError Config := do
  let c ← overrideInterval (lookup "TICK_INTERVAL_SECS") c
  let c := overrideStorage (lookup "STORAGE_PATH") c
  let c ← overridePort (lookup "API_PORT") c
  return overrideToken (lookup "API_OWNER_TOKEN") c

/-- All variables that the configuration of a file's content may depend on. -/
def variableNames (marker : String) (content : ByteArray) : List String :=
  let text := ((String.fromUTF8? content).map String.toList).getD []
  (references text).map String.ofList ++ overrideNames.map (marker ++ ·)

/-- Makes the configuration of a file's content. -/
def ofContent (environment : Environment) (marker path : String) (content : ByteArray) :
    Except ConfigError Config := do
  let some text := String.fromUTF8? content
    | throw (.unreadable "stream did not contain valid UTF-8")
  let c ← parse environment.lookup (← formatAt path) text.toList
  let c ← override (fun name => environment.lookup (marker ++ name)) c
  check c
  return c

/-- Loads the configuration of a file. -/
def load (environment : Environment) (marker : String) (path : Option String) :
    Except ConfigError Config :=
  match path with
  | none => .error (.fileNotFound "No configuration file specified")
  | some path =>
    match environment.read path with
    | .ok content => ofContent environment marker path content
    | .error e => .error (if e.isAbsent then .fileNotFound path else .unreadable e.message)

end Config

end PriceOracle
