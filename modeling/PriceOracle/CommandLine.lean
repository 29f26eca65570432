import PriceOracle.Assembly
import PriceOracle.Config.Load
import PriceOracle.Text.Quote

/-!
# The command line

The program is called with options, then a command: `start` runs the service, which is also what
happens without a command, and `validate` only checks the configuration. `CommandLine.parse` reads
the arguments from left to right; the first thing that is wrong, or that asks for help, ends it.

`CommandLine.run` does what the arguments say, through the requests of `Request`.
-/

namespace PriceOracle

namespace CommandLine

/-- What the program is to do. -/
inductive Command where
  | start
  | validate
  deriving DecidableEq

/-- The options before the command, as far as they are given. -/
structure Options where
  config : Option String
  logLevel : Option String
  deriving DecidableEq

/-- What the arguments say. -/
inductive Parsed where
  | run (options : Options) (command : Command)
  | help
  | misuse
  deriving DecidableEq

/-- The option that an argument gives a value to. -/
inductive Flag where
  | config
  | logLevel
  deriving DecidableEq

/-- Gives an option its value. No option is given twice, and a file has a name. -/
def Options.give (o : Options) (option : Flag) (value : String) : Option Options :=
  match option with
  | .config =>
    if o.config.isSome || value.isEmpty then none else some { o with config := some value }
  | .logLevel => if o.logLevel.isSome then none else some { o with logLevel := some value }

/-- An argument that cannot be the value of an option. -/
def looksLikeOption (arg : String) : Bool := arg.startsWith "-" && arg ≠ "-"

/-- What a single argument is. -/
inductive Argument where
  /-- The value of the option is the next argument. -/
  | option (o : Flag)
  | valued (o : Flag) (value : String)
  | help
  /-- Nothing but operands follows. -/
  | separator
  | operand (word : String)
  | unknown

/-- The option of a name. -/
def optionNamed? (name : List Char) : Option Flag :=
  match String.ofList name with
  | "config" => some .config
  | "log-level" => some .logLevel
  | _ => none

/-- Reads what follows two hyphens. -/
def Argument.ofLong (cs : List Char) : Argument :=
  let name := cs.takeWhile (· ≠ '=')
  match optionNamed? name, cs.drop name.length with
  | some o, '=' :: value => valued o (String.ofList value)
  | some o, _ => option o
  | none, [] => if name = "help".toList then help else if name.isEmpty then separator else unknown
  | none, _ => unknown

/-- Reads what follows one hyphen. -/
def Argument.ofShort : List Char → Argument
  | 'h' :: _ => help
  | ['c'] => option .config
  | 'c' :: '=' :: value => valued .config (String.ofList value)
  | 'c' :: value => valued .config (String.ofList value)
  | _ => unknown

/-- Reads an argument. -/
def Argument.ofText (arg : String) : Argument :=
  match arg.toList with
  | '-' :: '-' :: rest => ofLong rest
  | ['-'] => operand arg
  | '-' :: rest => ofShort rest
  | _ => operand arg

/-- Reads what follows a command, which takes no arguments. -/
def parseRest (o : Options) (command : Command) : List String → Parsed
  | [] => .run o command
  | arg :: rest =>
    match Argument.ofText arg with
    | .help => .help
    | .separator => if rest.isEmpty then .run o command else .misuse
    | _ => .misuse

/-- Help is given for the program and for each command. -/
def parseHelp : List String → Parsed
  | [] => .help
  | [topic] => if ["start", "validate", "help"].contains topic then .help else .misuse
  | _ => .misuse

/-- Reads a command. -/
def parseCommand (o : Options) (word : String) (rest : List String) : Parsed :=
  match word with
  | "start" => parseRest o .start rest
  | "validate" => parseRest o .validate rest
  | "help" => parseHelp rest
  | _ => .misuse

/-- Reads arguments behind some options. -/
def parseFrom (o : Options) : List String → Parsed
  | [] => .run o .start
  | arg :: rest =>
    match Argument.ofText arg with
    | .help => .help
    | .unknown => .misuse
    | .separator => if rest.isEmpty then .run o .start else .misuse
    | .operand word => parseCommand o word rest
    | .valued option value =>
      match o.give option value with
      | some o => parseFrom o rest
      | none => .misuse
    | .option option =>
      match rest with
      | [] => .misuse
      | value :: rest =>
        if looksLikeOption value then .misuse
        else match o.give option value with
          | some o => parseFrom o rest
          | none => .misuse

/-- Reads the arguments of the program. -/
def parse (args : List String) : Parsed := parseFrom ⟨none, none⟩ args

/-! ## Running -/

/-- The file of the configuration unless one is given. -/
def defaultConfig : String := "config/oracle.toml"

/-- The variable that names the level of log lines unless an option does. -/
def logLevelVariable : String := "ORACLE_LOG_LEVEL"

/-- The level of log lines unless one is named. -/
def defaultLogLevel : String := "info"

/-- What running the program asks for. -/
inductive Request where
  | lookup (name : String)
  | read (path : String)
  | note (line : LogLine)
  /-- Says why the program ends: what it was doing, and what went wrong, outermost first. -/
  | complain (doing : String) (causes : List String)
  /-- Explains how the program is called. -/
  | explain
  | mount (storage : StorageChoice)
  | storage (r : Storage.Request)
  /-- Runs a service until it is shut down. -/
  | serve (engine : Engine) (table : Table)

/-- The answer to each request. -/
def Request.Reply : Request → Type
  | lookup _ => Option String
  | read _ => Except FileError ByteArray
  | note _ | complain _ _ | explain | mount _ => Unit
  | storage r => r.Reply
  | serve _ _ => Except EngineError Unit

/-- The interface to the machine. -/
def interface : Interface := ⟨Request, Request.Reply⟩

/-- A part of a run of the program. -/
abbrev Run (α : Type) := Program interface α

/-- Makes a request. -/
def ask (r : Request) : Run r.Reply := Program.request (I := interface) r

/-- Writes a line of the log, where the filter shows it. -/
def note (filter : LogFilter) (level : LogLevel) (text : String) : Run Unit :=
  if filter.shows ⟨level, text⟩ then ask (.note ⟨level, text⟩) else pure ()

/-- The values of variables. -/
def lookupAll : List String → Run (List (String × String))
  | [] => return []
  | name :: rest => do
    match ← ask (.lookup name) with
    | some value => return (name, value) :: (← lookupAll rest)
    | none => lookupAll rest

/-- Whether a file is there, readable or not. -/
def isThere : Except FileError ByteArray → Bool
  | .ok _ => true
  | .error e => !e.isAbsent

/-- Loads the configuration from a file. -/
def loadConfig (filter : LogFilter) (path : String) : Run (Except ConfigError Config) := do
  let file ← ask (.read path)
  let content := file.toOption.getD ByteArray.empty
  if isThere file then
    note filter .info s!"Loading configuration path={path}"
  let values ← lookupAll (Config.variableNames Config.defaultPrefix content)
  return Config.load ⟨fun name => values.lookup name, fun _ => file⟩ Config.defaultPrefix
    (some path)

/-- The wordings behind a failed configuration, outermost first. -/
def configCauses (e : ConfigError) : List String :=
  match e with
  | .unreadable reason => [e.message, reason]
  | _ => [e.message]

/-- Ends with a complaint. -/
def fail (doing : String) (causes : List String) : Run UInt32 := do
  ask (.complain doing causes)
  return 1

/-- The lines of a complaint: what the program was doing, then one line for each cause, numbered
where there are several. -/
def complaint (doing : String) (causes : List String) : List String :=
  [s!"Error: {doing}", "", "Caused by:"] ++ match causes with
    | [cause] => [s!"    {cause}"]
    | causes => causes.mapIdx fun i cause => s!"    {i}: {cause}"

/-- How the program is called. -/
def usage : List String :=
  ["Cross-chain price oracle service", "", "Usage: oracle-service [OPTIONS] [COMMAND]", "",
    "Commands:", "  start     Start the oracle service",
    "  validate  Validate the configuration file",
    "  help      Print this message or the help of the given subcommand(s)", "", "Options:",
    s!"  -c, --config <FILE>          [default: {defaultConfig}]",
    s!"      --log-level <LOG_LEVEL>  [env: {logLevelVariable}=] [default: {defaultLogLevel}]",
    "  -h, --help                   Print help"]

/-- One line for each configured oracle. -/
def listOracles (filter : LogFilter) : List OracleConfig → Run Unit
  | [] => return ()
  | c :: rest => do
    note filter .info
      s!"  {c.id} ({c.source.kind} source, threshold {c.threshold}) -> {c.destination.key.text}"
    listOracles filter rest

/-- Checks the configuration and says what it holds. -/
def validate (filter : LogFilter) (path : String) : Run UInt32 := do
  note filter .info s!"Validating configuration file: {Text.quoted path}"
  match ← loadConfig filter path with
  | .error e => fail "Failed to load configuration" (configCauses e)
  | .ok c =>
    note filter .info "Configuration is valid"
    note filter .info s!"Storage backend: {c.storage.backend}"
    note filter .info "Configured oracles:"
    listOracles filter c.oracles
    return 0

/-- Answers what building a service asks for. -/
def answerAssembly (filter : LogFilter) : (r : Assembly.Request StorageChoice) → Run r.Reply
  | .note line => note filter line.level line.text
  | .read path => do return (← ask (.read path)).toOption
  | .mount choice => do
    if choice matches .memory then
      note filter .warn "Using in-memory storage; the registry will not survive a restart"
    ask (.mount choice)
  | .storage r => ask (.storage r)

/-- Builds a service of a configuration and runs it. -/
def startWith (filter : LogFilter) (c : Config) : Run UInt32 := do
  let doing := "Failed to build oracle engine"
  match ← (Assembly.assemble Parts.standard c).run.through (answerAssembly filter) with
  | .error e => fail doing e.causes
  | .ok (engine, table) =>
    match ← ask (.serve engine table) with
    | .error e => fail doing e.causes
    | .ok () =>
      note filter .info "Oracle service stopped"
      return 0

/-- Loads the configuration and runs the service. -/
def start (filter : LogFilter) (path : String) : Run UInt32 := do
  note filter .info s!"Loading configuration from: {Text.quoted path}"
  match ← loadConfig filter path with
  | .error e => fail "Failed to load configuration" (configCauses e)
  | .ok c =>
    note filter .info s!"Oracle service name: {c.schedule.name}"
    startWith filter c

/-- The filter of log lines that options and variables choose. -/
def filterOf (o : Options) : Run LogFilter := do
  match o.logLevel with
  | some text => return .ofText text
  | none => return .ofText ((← ask (.lookup logLevelVariable)).getD defaultLogLevel)

/-- Does what the arguments say; gives the exit code. -/
def run (args : List String) : Run UInt32 := do
  match parse args with
  | .help =>
    ask .explain
    return 0
  | .misuse =>
    ask .explain
    return 2
  | .run o command =>
    let filter ← filterOf o
    let path := o.config.getD defaultConfig
    match command with
    | .start => start filter path
    | .validate => validate filter path

end CommandLine

end PriceOracle
