import PriceOracle.Text.Hex

/-!
# Quoted texts

A text between double quotes, in which quotes, backslashes and control characters are escaped.
-/

namespace PriceOracle.Text

/-- The hexadecimal digits of a number, without leading zeros. -/
def hexDigits (n : Nat) : List Char := Nat.toDigits 16 n

/-- The characters that stand between quotes as a backslash and a letter. -/
def lettered : List (Char × Char) :=
  [('"', '"'), ('\\', '\\'), ('\n', 'n'), ('\r', 'r'), ('\t', 't'), ('\x00', '0')]

/-- A character as it stands between quotes. -/
def quoteChar (c : Char) : List Char :=
  match lettered.lookup c with
  | some letter => ['\\', letter]
  | none =>
    if c.toNat < 32 ∨ (127 ≤ c.toNat ∧ c.toNat < 160) then
      ['\\', 'u', '\x7b'] ++ hexDigits c.toNat ++ ['\x7d']
    else [c]

/-- A text between quotes. -/
def quoted (s : String) : String := String.ofList ('"' :: s.toList.flatMap quoteChar ++ ['"'])

end PriceOracle.Text
