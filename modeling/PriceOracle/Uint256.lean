import PriceOracle.Power
import PriceOracle.Text.Digits
import PriceOracle.Text.Hex

/-!
# Unsigned 256-bit integers

The answers that feeds store and contract calls return. Arithmetic on them is done on natural
numbers; `Uint256.ofNat?` says whether a result still fits.
-/

namespace PriceOracle

/-- An unsigned integer of 256 bits. -/
structure Uint256 where
  toNat : Nat
  toNat_lt : toNat < 2 ^ 256
  deriving DecidableEq

namespace Uint256

/-- The integer of a natural number that fits 256 bits. -/
def ofNat? (n : Nat) : Option Uint256 := if h : n < 2 ^ 256 then some ⟨n, h⟩ else none

def zero : Uint256 := ⟨0, by decide⟩

/-- The largest integer of 256 bits. -/
def maxValue : Uint256 := ⟨2 ^ 256 - 1, by decide⟩

instance : Inhabited Uint256 := ⟨zero⟩

/-- The decimal digits. -/
def text (a : Uint256) : String := String.ofList (Digits.ofNat a.toNat)

/-- The number that big-endian bytes write, cut to 256 bits. -/
def ofBytes (bytes : List UInt8) : Uint256 :=
  ⟨bytes.foldl (fun n b => n * 256 + b.toNat) 0 % 2 ^ 256, Nat.mod_lt _ (by decide)⟩

/-- Reads decimal digits, or hexadecimal digits after `0x`. -/
def ofText? (s : String) : Option Uint256 :=
  let cs := s.toList
  if cs.head? = some '0' ∧ cs.tail.head? = some 'x' then (Hex.toNat? (cs.drop 2)) >>= ofNat?
  else Digits.toNat? cs >>= ofNat?

end Uint256

end PriceOracle
