import PriceOracle.Program
import PriceOracle.Json.Reader
import PriceOracle.Document.Decode

/-!
# Storage

A storage backend keeps bytes under text keys. `Storage` is the interface to one; on top of it
stand JSON records, addressed by a namespace and an id.
-/

namespace PriceOracle

/-- Why storage does not answer. -/
inductive StorageError where
  | notFound
  | serialization (reason : String)
  | backend (reason : String)
  | configuration (reason : String)
  deriving DecidableEq

/-- The wording of a storage failure. -/
def StorageError.message : StorageError → String
  | notFound => "Not found"
  | serialization reason => s!"Serialization error: {reason}"
  | backend reason => s!"Backend error: {reason}"
  | configuration reason => s!"Invalid storage configuration: {reason}"

namespace Storage

/-- What a backend can be asked for. -/
inductive Request where
  | get (key : String)
  | set (key : String) (value : ByteArray)
  | delete (key : String)
  | holds (key : String)

/-- The answer to each request. -/
def Request.Reply : Request → Type
  | get _ => Except StorageError ByteArray
  | set _ _ => Except StorageError Unit
  | delete _ => Except StorageError Unit
  | holds _ => Except StorageError Bool

/-- The interface to a backend. -/
def interface : Interface := ⟨Request, Request.Reply⟩

/-- A use of a backend that may fail. -/
abbrev Access (α : Type) := Attempt interface StorageError α

/-- The bytes of a key; missing ones fail. -/
def get (key : String) : Access ByteArray :=
  ExceptT.mk (Program.request (I := interface) (.get key))

/-- Writes bytes under a key. -/
def set (key : String) (value : ByteArray) : Access Unit :=
  ExceptT.mk (Program.request (I := interface) (.set key value))

/-- Takes a key out, if it is there. -/
def delete (key : String) : Access Unit :=
  ExceptT.mk (Program.request (I := interface) (.delete key))

/-- Whether a key is there. -/
def holds (key : String) : Access Bool :=
  ExceptT.mk (Program.request (I := interface) (.holds key))

/-! ## Records -/

/-- The key of a record. -/
def recordKey (space id : String) : String := space ++ ":" ++ id

/-- The bytes of a record. -/
def encode (j : Json) : ByteArray := j.text.toUTF8

/-- Reads the bytes of a record. -/
def decode (read : Document → Decoded α) (bytes : ByteArray) : Except StorageError α :=
  let reading := (String.fromUTF8? bytes).map fun text => Json.read text.toList
  match reading with
  | none => .error (.serialization "the record is not UTF-8")
  | some r =>
    match r.complete, read r.document with
    | true, .ok a => .ok a
    | _, _ => .error (.serialization "the record is malformed")

/-- Writes a record. -/
def store (space id : String) (j : Json) : Access Unit := set (recordKey space id) (encode j)

/-- Reads a record; a missing one fails. -/
def retrieve (space id : String) (read : Document → Decoded α) : Access α := do
  let bytes ← get (recordKey space id)
  Attempt.ofExcept (decode read bytes)

/-- Reads a record that may be missing. -/
def retrieve? (space id : String) (read : Document → Decoded α) : Access (Option α) :=
  ExceptT.mk do
    match ← (retrieve space id read).run with
    | .ok a => return .ok (some a)
    | .error .notFound => return .ok none
    | .error e => return .error e

/-- Takes a record out. -/
def remove (space id : String) : Access Unit := delete (recordKey space id)

/-- Whether a record is there. -/
def contains (space id : String) : Access Bool := holds (recordKey space id)

end Storage

end PriceOracle
