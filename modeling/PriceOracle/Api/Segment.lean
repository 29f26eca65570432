import PriceOracle.Text.Hex

/-!
# Path segments

An id stands in a path as one segment, with the bytes that have a meaning in paths written as a
percent sign and two hexadecimal digits. `decode?` reads a segment back; a percent sign without
two digits after it stands for itself.
-/

namespace PriceOracle.Api.Segment

/-- A byte that stands for itself in a segment. -/
def isPlain (b : UInt8) : Bool :=
  let c := Char.ofNat b.toNat
  b < 128 && (c.isAlphanum || c = '-' || c = '.' || c = '_' || c = '~')

/-- The byte of an ASCII character. -/
def byteOf (c : Char) : UInt8 := UInt8.ofNat c.toNat

/-- The written form of a byte, as bytes. -/
def encodeByte (b : UInt8) : List UInt8 :=
  if isPlain b then [b] else byteOf '%' :: (Hex.ofByte b).map byteOf

/-- The value of a byte as a hexadecimal digit. -/
def digit? (b : UInt8) : Option Nat := if b < 128 then Hex.value? (Char.ofNat b.toNat) else none

/-- The byte that a percent sign and what follows it stand for, and the bytes it takes. -/
def escaped? : List UInt8 → Option UInt8
  | a :: b :: _ => do return UInt8.ofNat ((← digit? a) * 16 + (← digit? b))
  | _ => none

/-- The bytes that a segment stands for; `skip` bytes of an escape are still to be passed over. -/
def decodeFrom : (skip : Nat) → List UInt8 → List UInt8
  | _, [] => []
  | skip + 1, _ :: rest => decodeFrom skip rest
  | 0, b :: rest =>
    if b = byteOf '%' then
      match escaped? rest with
      | some value => value :: decodeFrom 2 rest
      | none => b :: decodeFrom 0 rest
    else b :: decodeFrom 0 rest

/-- The bytes that a segment stands for. -/
def decodeBytes (bytes : List UInt8) : List UInt8 := decodeFrom 0 bytes

/-- The text of bytes in UTF-8. -/
def text? (bytes : List UInt8) : Option String := String.fromUTF8? ⟨bytes.toArray⟩

/-- The text that a segment stands for; none when its bytes are no text. -/
def decode? (segment : String) : Option String := text? (decodeBytes segment.toUTF8.toList)

/-- The segment of a text. -/
def encode (s : String) : String :=
  String.ofList ((s.toUTF8.toList.flatMap encodeByte).map fun b => Char.ofNat b.toNat)

end PriceOracle.Api.Segment
