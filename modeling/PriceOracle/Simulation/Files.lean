import PriceOracle.Directory
import PriceOracle.Text.Split

/-!
# Simulated files

The files that a simulated service finds, by their paths. Two spellings of a path are the same when
they have the same components.
-/

namespace PriceOracle.Simulation

/-- The components of a path. -/
abbrev Path := List String

/-- The components of the text of a path; empty ones and single dots do not count. -/
def Path.ofText (s : String) : Path :=
  ((Text.splitOn '/' s.toList).map String.ofList).filter fun c => c ≠ "" && c ≠ "."

/-- Files by their paths. -/
abbrev Files := Dict Path ByteArray

namespace Files

/-- What is at a path. -/
def read (files : Files) (path : String) : Except FileError ByteArray :=
  let place := Path.ofText path
  match files.get? place with
  | some content => .ok content
  | none => if files.any (place.isPrefixOf ·.1) then .error .isDirectory else .error .notFound

/-- The directory at a path: the files right in it, or the fact that a file stands in the way. -/
def directory (files : Files) (path : String) : Directory :=
  let place := Path.ofText path
  ⟨files.any (·.1.isPrefixOf place), files.filterMap fun (p, content) =>
    match p.drop place.length with
    | [name] => if place.isPrefixOf p then some (name, content) else none
    | _ => none⟩

end Files

end PriceOracle.Simulation
