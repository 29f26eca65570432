import PriceOracle.Decimal

/-!
# Numerals

How a written numeral is read as a `Decimal`.

* `Decimal.ofPlain?` reads `[sign] digits [. digits]`, with `_` allowed between digits. Digits
  beyond the 28th fractional place, or beyond the 96 bits of the coefficient, are rounded away:
  the first of them decides, half going up in magnitude.
* `Decimal.ofScientific?` reads a plain numeral followed by `e` and an exponent of at most 28.
* `Decimal.ofNumeral?` tries the plain form first.
-/

namespace PriceOracle.Decimal

/-- The decimal of a sign, a magnitude and a scale. -/
def signed? (negative : Bool) (magnitude scale : Nat) : Option Decimal :=
  ofParts? (if negative then -(magnitude : Int) else magnitude) scale

/-- The characters that may follow the deciding digit of a rounded numeral. -/
def isSpare (c : Char) : Bool := c.isDigit || c == '_'

/-- Ends a numeral that has more digits than fit: `decides` is the first digit left out. A
magnitude that rounds up to 97 bits gives up its last fractional digit. -/
def rounded? (negative : Bool) (magnitude scale decides : Nat) (rest : List Char) :
    Option Decimal :=
  if !rest.all isSpare then none
  else if decides < 5 then signed? negative magnitude scale
  else if magnitude + 1 < 2 ^ 96 then signed? negative (magnitude + 1) scale
  else if scale = 0 then none
  else signed? negative ((magnitude + 1 + 4) / 10) (scale - 1)

/-- Reads the fractional digits of a numeral; `seen` tells whether a digit came before. -/
def fraction? (negative : Bool) : (seen : Bool) → (magnitude scale : Nat) → List Char →
    Option Decimal
  | seen, m, s, [] => if seen then signed? negative m s else none
  | seen, m, s, c :: rest =>
    if c.isDigit then
      let d := Digits.value c
      if 28 ≤ s then rounded? negative m s d rest
      else if m * 10 + d < 2 ^ 96 then fraction? negative true (m * 10 + d) (s + 1) rest
      else rounded? negative m s d rest
    else if c == '_' && seen then
      if 28 ≤ s then rounded? negative m s 0 rest else fraction? negative seen m s rest
    else none

/-- Reads the digits of a numeral before its point. -/
def whole? (negative : Bool) : (seen : Bool) → (magnitude : Nat) → List Char → Option Decimal
  | seen, m, [] => if seen then signed? negative m 0 else none
  | seen, m, c :: rest =>
    if c.isDigit then
      let m' := m * 10 + Digits.value c
      if m' < 2 ^ 96 then whole? negative true m' rest else none
    else if c == '.' then fraction? negative seen m 0 rest
    else if c == '_' && seen then whole? negative seen m rest
    else none

/-- Reads a numeral without an exponent. -/
def ofPlain? (cs : List Char) : Option Decimal :=
  match cs with
  | [] => none
  | c :: rest =>
    if c == '-' then whole? true false 0 rest
    else if c == '+' then whole? false false 0 rest
    else whole? false false 0 cs

/-- The value times ten to the `n`: the scale shrinks first, then the coefficient grows. -/
def shiftUp? (d : Decimal) (n : Nat) : Option Decimal :=
  if n ≤ d.scale then ofParts? d.coefficient (d.scale - n)
  else if n ≤ maxScale then ofParts? (d.coefficient * 10 ^ (n - d.scale)) 0
  else none

/-- The value over ten to the `n`: the scale grows. -/
def shiftDown? (d : Decimal) (n : Nat) : Option Decimal :=
  if n ≤ maxScale then ofParts? d.coefficient (d.scale + n) else none

/-- Splits a text at its first exponent mark. -/
def splitExponent : List Char → Option (List Char × List Char)
  | [] => none
  | c :: rest =>
    if c == 'e' || c == 'E' then some ([], rest)
    else (splitExponent rest).map fun (base, exponent) => (c :: base, exponent)

/-- Reads an exponent, an unsigned 32-bit number. -/
def exponent? (cs : List Char) : Option Nat := (Digits.bounded (2 ^ 32) cs).toOption

/-- Reads a numeral with an exponent. -/
def ofScientific? (cs : List Char) : Option Decimal := do
  let (base, exponent) ← splitExponent cs
  let d ← ofPlain? base
  if exponent.head? == some '-' then shiftDown? d (← exponent? exponent.tail)
  else shiftUp? d (← exponent? exponent)

/-- Reads a numeral, with or without an exponent. -/
def ofNumeral? (cs : List Char) : Option Decimal := ofPlain? cs <|> ofScientific? cs

end PriceOracle.Decimal
