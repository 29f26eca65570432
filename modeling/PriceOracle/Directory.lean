import PriceOracle.Program
import PriceOracle.Dict

/-!
# Directories

The few operations on the files of one directory that storage needs, and a `Directory` that
answers them. A rename is atomic: it replaces the file of the new name as a whole.
-/

namespace PriceOracle

/-- Why an operation on a file fails. -/
inductive FileError where
  | notFound
  | nameTooLong
  /-- Something that is no directory stands in the way. -/
  | notADirectory
  /-- The file is a directory. -/
  | isDirectory
  /-- Anything else, in the words of the machine. -/
  | other (reason : String)
  deriving DecidableEq

/-- The wording of a failed operation. -/
def FileError.message : FileError → String
  | notFound => "No such file or directory (os error 2)"
  | nameTooLong => "File name too long (os error 36)"
  | notADirectory => "Not a directory (os error 20)"
  | isDirectory => "Is a directory (os error 21)"
  | other reason => reason

/-- Whether nothing is there at all. -/
def FileError.isAbsent : FileError → Bool
  | notFound | nameTooLong | notADirectory => true
  | isDirectory | other _ => false

namespace Directory

/-- What can be asked of a directory. -/
inductive Request where
  | read (name : String)
  /-- Makes the directory, where it is missing. -/
  | create
  | write (name : String) (content : ByteArray)
  | rename (old new : String)
  | remove (name : String)
  | holds (name : String)

/-- The answer to each request. -/
def Request.Reply : Request → Type
  | read _ => Except FileError ByteArray
  | holds _ => Except FileError Bool
  | _ => Except FileError Unit

/-- The interface to a directory. -/
def interface : Interface := ⟨Request, Request.Reply⟩

end Directory

/-- A directory: its files, or the fact that it cannot be entered. -/
structure Directory where
  blocked : Bool
  files : Dict String ByteArray

namespace Directory

/-- A directory without files. -/
def empty : Directory := ⟨false, []⟩

/-- The longest name of a file, in bytes. -/
def maxName : Nat := 255

/-- Why a name cannot be used; none when it can. -/
def fault? (d : Directory) (name : String) : Option FileError :=
  if d.blocked then some .notADirectory
  else if maxName < name.utf8ByteSize then some .nameTooLong
  else none

/-- Answers a request. -/
def answer : (r : Request) → Directory → r.Reply × Directory
  | .read name, d =>
    (match d.fault? name, d.files.get? name with
      | some e, _ => .error e
      | none, some content => .ok content
      | none, none => .error .notFound, d)
  | .create, d => (if d.blocked then .error .notADirectory else .ok (), d)
  | .write name content, d =>
    match d.fault? name with
    | some e => (.error e, d)
    | none => (.ok (), { d with files := d.files.set name content })
  | .rename old new, d =>
    match d.fault? old <|> d.fault? new, d.files.get? old with
    | some e, _ => (.error e, d)
    | none, some content => (.ok (), { d with files := (d.files.unset old).set new content })
    | none, none => (.error .notFound, d)
  | .remove name, d =>
    match d.fault? name with
    | some e => (.error e, d)
    | none =>
      if d.files.has name then (.ok (), { d with files := d.files.unset name })
      else (.error .notFound, d)
  | .holds name, d =>
    (match d.fault? name with
      | some e => .error e
      | none => .ok (d.files.has name), d)

end Directory

end PriceOracle
