import PriceOracle.Crypto.Secp256k1
import PriceOracle.Schema
import PriceOracle.Text.Blank

/-!
# Publishing accounts

The key that signs publications, written in hexadecimal in the settings or in a file.
-/

namespace PriceOracle

/-- Why there is no account. -/
inductive AccountError where
  | invalidKey (reason : String)
  | credential (reason : String)
  | configuration (reason : String)
  deriving DecidableEq

/-- The wording of a missing account. -/
def AccountError.message : AccountError → String
  | invalidKey reason => s!"Invalid key: {reason}"
  | credential reason => s!"Failed to read credential: {reason}"
  | configuration reason => s!"Invalid account configuration: {reason}"

namespace Account

open Secp256k1 (PrivateKey)

/-- The digits of a written key, without blanks around it and its mark. -/
def digits (key : String) : List Char := Hex.stripMark (Text.trim key.toList)

/-- A key has 64 hexadecimal digits. -/
def checkForm (key : String) : Except String Unit :=
  let ds := digits key
  if (String.ofList ds).utf8ByteSize ≠ 64 then
    .error "Private key must be 64 hex characters (32 bytes)"
  else if !Hex.isHex ds then .error "Private key must be valid hexadecimal"
  else .ok ()

/-- The key of a text. -/
def ofText (key : String) : Except AccountError PrivateKey :=
  match checkForm key with
  | .error reason => .error (.invalidKey reason)
  | .ok () =>
    match (Hex.toNat? (digits key)).bind PrivateKey.ofNat? with
    | some k => .ok k
    | none => .error (.invalidKey "Invalid private key: signature error")

/-- The key in a file. -/
def ofFile (read : String → Option ByteArray) (path : String) : Except AccountError PrivateKey :=
  match read path with
  | none => .error (.credential s!"{path}: No such file or directory (os error 2)")
  | some content =>
    match String.fromUTF8? content with
    | none => .error (.credential s!"{path}: stream did not contain valid UTF-8")
    | some text => ofText text

/-- The key of a setting has the form of one. -/
def checkSetting (s : Setting) : Except String Unit :=
  match s.asString? with
  | some key => checkForm key
  | none => .error "private_key must be a string"

/-- The settings of an account, before the choice between key and file. -/
def schema : Schema :=
  ⟨[], [.mk "private_key" .string (some checkSetting), Schema.field "key_file" .string]⟩

/-- The settings of an account name a key or a file, and not both. -/
def validate (s : Setting) : Except Schema.Fault Unit := do
  schema.validate s
  if (s.get? "private_key").isSome == (s.get? "key_file").isSome then
    .error (.invalid [.name "private_key"] "set exactly one of private_key or key_file")

/-- The name of the backend that reads keys from settings and files. -/
def backendName : String := "local"

/-- The file that settings take the key from: the one they name, unless they hold a key. -/
def keyFile? (s : Setting) : Option String :=
  if ((s.get? "private_key").bind Setting.asString?).isSome then none
  else (s.get? "key_file").bind Setting.asString?

/-- The account of some settings. -/
def ofSettings (read : String → Option ByteArray) (s : Setting) :
    Except AccountError PrivateKey :=
  match validate s with
  | .error e => .error (.configuration e.message)
  | .ok () =>
    match (s.get? "private_key").bind Setting.asString?,
        (s.get? "key_file").bind Setting.asString? with
    | some key, _ => ofText key
    | none, some path => ofFile read path
    | none, none => .error (.configuration "key_file missing")

end Account

end PriceOracle
