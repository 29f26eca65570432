import PriceOracle.Crypto.Keccak
import PriceOracle.Text.Hex

/-!
# Contract and account addresses

An address is 20 bytes. It is stored in lower case and shown with the checksum that writes a
letter in upper case where the digest of the lower-case form has a digit of eight or more.
-/

namespace PriceOracle

/-- An address of 20 bytes. -/
structure Address where
  bytes : List UInt8
  length_eq : bytes.length = 20
  deriving DecidableEq

namespace Address

/-- The address of 20 bytes. -/
def ofBytes? (bytes : List UInt8) : Option Address :=
  if h : bytes.length = 20 then some ⟨bytes, h⟩ else none

/-- The text without one leading `0x` or `0X`. -/
def unmarked : List Char → List Char
  | '0' :: 'x' :: rest => rest
  | '0' :: 'X' :: rest => rest
  | cs => cs

/-- Reads 40 hexadecimal digits of any case, with or without a mark. -/
def ofChars? (cs : List Char) : Option Address :=
  Hex.decode? (unmarked cs) >>= ofBytes?

/-- `ofChars?` on a string. -/
def ofText? (s : String) : Option Address := ofChars? s.toList

/-- The 40 lower-case digits. -/
def digits (a : Address) : List Char := Hex.encode a.bytes

/-- The lower-case form with `0x`. -/
def text (a : Address) : String := Hex.marked a.bytes

/-- The checksummed digits: a letter is in upper case where the digest digit is at least eight. -/
def checksumDigits (a : Address) : List Char :=
  let mask := Hex.encode (Keccak.digestText (String.ofList a.digits))
  List.zipWith (fun c m => if '8' ≤ m then c.toUpper else c) a.digits mask

/-- The checksummed form with `0x`. -/
def checksum (a : Address) : String := "0x" ++ String.ofList a.checksumDigits

instance : ToString Address := ⟨checksum⟩

theorem ofBytes_bytes (a : Address) : ofBytes? a.bytes = some a := by
  simp [ofBytes?, a.length_eq]

/-- An address is read back from its stored form. -/
theorem ofText_text (a : Address) : ofText? a.text = some a := by
  simp [ofText?, text, Hex.marked, ofChars?, unmarked, Hex.decode_encode, ofBytes_bytes]

end Address

end PriceOracle
