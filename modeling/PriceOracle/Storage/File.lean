import PriceOracle.Storage
import PriceOracle.Directory
import PriceOracle.Schema
import PriceOracle.Text.Blank

/-!
# Storage in files

The backend that keeps each key in a file of its own. A file is written under a temporary name and
renamed into place, so that a crash leaves either the old record or the new one.
-/

namespace PriceOracle.Storage.File

/-- A byte that stands for itself in a file name. -/
def isPlain (b : UInt8) : Bool :=
  let c := Char.ofNat b.toNat
  b < 128 && (c.isAlphanum || c = '-')

/-- The written form of a byte in a file name. -/
def stemOfByte (b : UInt8) : List Char :=
  if isPlain b then [Char.ofNat b.toNat] else '_' :: Hex.ofByte b

/-- The file name of a key without its ending. Different keys have different names. -/
def stem (key : String) : String := String.ofList (key.toUTF8.toList.flatMap stemOfByte)

/-- The file of a key. -/
def recordName (key : String) : String := stem key ++ ".json"

/-- The file that a key is written to before it is renamed. The ending of the record gives way,
except where the ending is all of its name. -/
def temporaryName (key : String) : String :=
  (if stem key = "" then recordName key else stem key) ++ ".tmp"

/-- A failed operation on a file as a storage failure. -/
def backendError (e : FileError) : StorageError := .backend e.message

/-- Asks the directory. -/
def use (r : Directory.Request) (h : r.Reply = Except FileError α := by rfl) :
    Attempt Directory.interface StorageError α :=
  ExceptT.mk do
    match h.mp (← Program.request (I := Directory.interface) r) with
    | .ok a => return .ok a
    | .error e => return .error (backendError e)

/-- Writes a record: to the temporary file first, which then takes the place of the record. -/
def write (key : String) (value : ByteArray) : Attempt Directory.interface StorageError Unit := do
  use .create
  use (.write (temporaryName key) value)
  use (.rename (temporaryName key) (recordName key))

/-- Answers a storage request by operations on files. -/
def answer : (r : Request) → Program Directory.interface r.Reply
  | .get key => do
    match ← Program.request (I := Directory.interface) (.read (recordName key)) with
    | .ok content => return .ok content
    | .error .notFound => return .error .notFound
    | .error e => return .error (backendError e)
  | .set key value => (write key value).run
  | .delete key => do
    match ← Program.request (I := Directory.interface) (.remove (recordName key)) with
    | .ok () => return .ok ()
    | .error .notFound => return .ok ()
    | .error e => return .error (backendError e)
  | .holds key => (use (.holds (recordName key)) : Attempt _ _ Bool).run

/-! ## Settings -/

/-- The directory of a configuration that names none. -/
def defaultPath : String := "./data/oracles"

/-- A path is more than blanks. -/
def checkPath (s : Setting) : Except String Unit :=
  match s.asString? with
  | some path => if Text.isBlankText path then .error "storage_path cannot be empty" else .ok ()
  | none => .ok ()

/-- The settings of storage in files. -/
def schema : Schema := ⟨[], [.mk "storage_path" .string (some checkPath)]⟩

/-- The directory that settings name. -/
def pathOf (s : Setting) : Except StorageError String :=
  match schema.validate s with
  | .error e => .error (.configuration e.message)
  | .ok () => .ok (((s.get? "storage_path").bind Setting.asString?).getD defaultPath)

end PriceOracle.Storage.File
