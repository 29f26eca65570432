/-!
# Hexadecimal digits

Bytes written as two lower-case digits each, and read back from digits of either case.
-/

namespace PriceOracle.Hex

/-- The lower-case digit of a number below sixteen. -/
def digit (n : Nat) : Char := Nat.digitChar n

/-- The value of a hexadecimal digit of either case. -/
def value? (c : Char) : Option Nat :=
  if c.isDigit then some (c.toNat - 48)
  else if 'a' ≤ c ∧ c ≤ 'f' then some (c.toNat - 87)
  else if 'A' ≤ c ∧ c ≤ 'F' then some (c.toNat - 55)
  else none

/-- The two digits of a byte. -/
def ofByte (b : UInt8) : List Char := [digit (b.toNat / 16), digit (b.toNat % 16)]

/-- Bytes as hexadecimal digits, two each. -/
def encode (bytes : List UInt8) : List Char := bytes.flatMap ofByte

/-- Reads pairs of hexadecimal digits. -/
def decode? : List Char → Option (List UInt8)
  | [] => some []
  | [_] => none
  | a :: b :: rest => do
    let high ← value? a
    let low ← value? b
    return UInt8.ofNat (high * 16 + low) :: (← decode? rest)

/-- Reads hexadecimal digits as one number. -/
def toNat? (cs : List Char) : Option Nat :=
  if cs.isEmpty then none
  else cs.foldlM (fun n c => (value? c).map (n * 16 + ·)) 0

/-- A text of hexadecimal digits only. -/
def isHex (cs : List Char) : Bool := cs.all fun c => (value? c).isSome

/-- The text without one leading `0x`. -/
def stripMark (cs : List Char) : List Char :=
  if cs.head? = some '0' ∧ cs.tail.head? = some 'x' then cs.drop 2 else cs

/-- The written form of bytes, marked with `0x`. -/
def marked (bytes : List UInt8) : String := "0x" ++ String.ofList (encode bytes)

theorem value_digit : ∀ n, n < 16 → value? (digit n) = some n := by decide

theorem decode_encode (bytes : List UInt8) : decode? (encode bytes) = some bytes := by
  induction bytes with
  | nil => rfl
  | cons b rest ih =>
    have hb := b.toNat_lt
    have h₁ := value_digit (b.toNat / 16) (by omega)
    have h₂ := value_digit (b.toNat % 16) (by omega)
    have hsplit : b.toNat / 16 * 16 + b.toNat % 16 = b.toNat := by omega
    change decode? (digit (b.toNat / 16) :: digit (b.toNat % 16) :: encode rest) = _
    simp only [decode?, h₁, h₂, ih, Option.bind_eq_bind, Option.bind_some, hsplit,
      UInt8.ofNat_toNat, Option.pure_def]

end PriceOracle.Hex
