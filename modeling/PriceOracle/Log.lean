import PriceOracle.Text.Split

/-!
# Log lines

What the service tells its operator while it works. A filter shows the lines up to a level; it is
written as a level, or as a list of directives of which the last level counts.
-/

namespace PriceOracle

/-- How urgent a line is. -/
inductive LogLevel where
  | error
  | warn
  | info
  | debug
  | trace
  deriving DecidableEq

/-- A line of the log. -/
structure LogLine where
  level : LogLevel
  text : String
  deriving DecidableEq

namespace LogLevel

/-- The name of a level. -/
def name : LogLevel → String
  | error => "ERROR"
  | warn => "WARN"
  | info => "INFO"
  | debug => "DEBUG"
  | trace => "TRACE"

/-- The place of a level, the most urgent first. -/
def rank : LogLevel → Nat
  | error => 1
  | warn => 2
  | info => 3
  | debug => 4
  | trace => 5

end LogLevel

/-- The least urgent rank that is shown; zero shows nothing. -/
structure LogFilter where
  limit : Nat

namespace LogFilter

/-- The rank that a word names, in letters of either case or as a digit. -/
def rank? (word : List Char) : Option Nat :=
  match String.ofList (word.map Char.toLower) with
  | "off" | "0" => some 0
  | "error" | "1" => some 1
  | "warn" | "2" => some 2
  | "info" | "3" => some 3
  | "debug" | "4" => some 4
  | "trace" | "5" => some 5
  | _ => none

/-- The filter that a text writes. Without any directive errors are shown; directives that name a
part of the program and no level show nothing of the rest. -/
def ofText (text : String) : LogFilter :=
  let directives := (Text.splitOn ',' text.toList).filter (· ≠ [])
  match directives, (directives.filterMap rank?).getLast? with
  | [], _ => ⟨LogLevel.error.rank⟩
  | _, some limit => ⟨limit⟩
  | _, none => ⟨0⟩

/-- Whether a line is shown. -/
def shows (f : LogFilter) (line : LogLine) : Bool := line.level.rank ≤ f.limit

end LogFilter

end PriceOracle
