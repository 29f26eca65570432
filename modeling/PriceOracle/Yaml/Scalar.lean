import PriceOracle.Document
import PriceOracle.Text.Hex
import PriceOracle.Binary64.Numeral

/-!
# YAML: plain scalars

A scalar without quotes is resolved by its text: the null and boolean words, integers in four
bases, floating-point numbers, and strings.
-/

namespace PriceOracle.Yaml

/-- The digits of a base as a number; none for a text with other characters. -/
def digits? (base : Nat) (cs : List Char) : Option Nat :=
  if cs.isEmpty then none
  else cs.foldlM (fun n c => (Hex.value? c).bind fun d =>
    if d < base then some (n * base + d) else none) 0

/-- Digits after a leading zero are no number. -/
def isZeroPadded (cs : List Char) : Bool :=
  cs.length > 1 && cs.head? == some '0' && cs.all Char.isDigit

/-- The magnitude of an integer: digits of base ten, or of another base behind its mark. -/
def magnitude? (cs : List Char) : Option Nat :=
  match cs with
  | '0' :: 'x' :: rest => digits? 16 rest
  | '0' :: 'o' :: rest => digits? 8 rest
  | '0' :: 'b' :: rest => digits? 2 rest
  | _ => if isZeroPadded cs then none else digits? 10 cs

/-- The integer of a plain scalar, when it fits 128 bits. -/
def integer? (cs : List Char) : Option Int :=
  if cs.head? = some '-' then
    (magnitude? cs.tail).bind fun n => if n ≤ 2 ^ 127 then some (-(n : Int)) else none
  else
    (magnitude? (if cs.head? = some '+' then cs.tail else cs)).bind fun n =>
      if n < 2 ^ 128 then some (n : Int) else none

/-- The text of an unsigned infinity. -/
def isInfinity (s : String) : Bool := s = ".inf" || s = ".Inf" || s = ".INF"

/-- The floating-point number of a plain scalar. -/
def float? (cs : List Char) : Option Document :=
  let unsigned := if cs.head? = some '+' ∨ cs.head? = some '-' then cs.tail else cs
  let text := String.ofList cs
  if isInfinity (String.ofList unsigned) then some (.nonFinite text)
  else if text = ".nan" ∨ text = ".NaN" ∨ text = ".NAN" then some (.nonFinite text)
  else if isZeroPadded unsigned then none
  else (Binary64.ofNumeral? cs).map .float

/-- The value of a plain scalar. -/
def resolve (cs : List Char) : Document :=
  let text := String.ofList cs
  if ["", "~", "null", "Null", "NULL"].contains text then .null
  else if ["true", "True", "TRUE"].contains text then .bool true
  else if ["false", "False", "FALSE"].contains text then .bool false
  else match integer? cs with
    | some n => .int n
    | none => (float? cs).getD (.str text)

/-- The document of a plain scalar. -/
def plain (cs : List Char) : Document := .plain (String.ofList cs) (resolve cs)

end PriceOracle.Yaml
