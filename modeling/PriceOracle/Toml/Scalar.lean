import PriceOracle.Document
import PriceOracle.Text.Hex
import PriceOracle.Text.Split

/-!
# TOML: booleans, numbers and dates

A scalar is a run of characters that is read as a whole.
-/

namespace PriceOracle.Toml

/-- A character of a scalar without quotes. -/
def isScalarChar (c : Char) : Bool :=
  c.isAlphanum || c = '+' || c = '-' || c = '.' || c = '_' || c = ':'

/-- Digits in which every underscore stands between two digits, without the underscores. -/
def plainDigits? (isDigit : Char → Bool) (cs : List Char) : Option (List Char) :=
  let groups := Text.splitOn '_' cs
  if groups.all fun g => !g.isEmpty && g.all isDigit then some groups.flatten else none

/-- Splits an optional sign off. -/
def signed (cs : List Char) : Bool × List Char :=
  if cs.head? = some '-' then (true, cs.tail)
  else if cs.head? = some '+' then (false, cs.tail)
  else (false, cs)

/-- Digits of a base other than ten as a number. -/
def based (base : Nat) (digits : List Char) : Nat :=
  digits.foldl (fun n c => n * base + (Hex.value? c).getD 0) 0

/-- Reads an integer. -/
def integer? (cs : List Char) : Option Int :=
  match cs with
  | '0' :: 'x' :: rest =>
    (plainDigits? (fun c => (Hex.value? c).isSome) rest).map fun ds => (based 16 ds : Nat)
  | '0' :: 'o' :: rest =>
    (plainDigits? (fun c => '0' ≤ c && c ≤ '7') rest).map fun ds => (based 8 ds : Nat)
  | '0' :: 'b' :: rest =>
    (plainDigits? (fun c => c = '0' || c = '1') rest).map fun ds => (based 2 ds : Nat)
  | _ => do
    let (negative, cs) := signed cs
    let digits ← plainDigits? Char.isDigit cs
    if digits.length > 1 && digits.head? == some '0' then none
    let n : Int := Digits.toNat digits
    return if negative then -n else n

/-- Reads a floating-point number: a fraction, an exponent, or both. -/
def float? (cs : List Char) : Option Document := do
  let (negative, body) := signed cs
  if body = ['i', 'n', 'f'] ∨ body = ['n', 'a', 'n'] then
    return .nonFinite (String.ofList cs)
  let isMark (c : Char) := c = 'e' || c = 'E'
  let mantissa := body.takeWhile (!isMark ·)
  let exponentText := body.drop mantissa.length
  let whole := mantissa.takeWhile (· ≠ '.')
  let fractionText := mantissa.drop whole.length
  if exponentText.isEmpty && fractionText.isEmpty then none
  let digits ← plainDigits? Char.isDigit whole
  if digits.length > 1 && digits.head? == some '0' then none
  let fraction ←
    if fractionText.isEmpty then some [] else plainDigits? Char.isDigit fractionText.tail
  let (down, exponent) := signed exponentText.tail
  let exponent ← if exponentText.isEmpty then some [] else plainDigits? Char.isDigit exponent
  let e : Int := min (Digits.toNat exponent) 1000000
  let x ← Binary64.ofDecimal? negative (Digits.toNat (digits ++ fraction))
    ((if down then -e else e) - fraction.length)
  return .float x

/-- Reads two digits of a number in a range. -/
def twoDigits? (low high : Nat) (cs : List Char) : Option (List Char) :=
  let written := cs.take 2
  let n := Digits.toNat written
  if written.length = 2 && written.all Char.isDigit && low ≤ n && n ≤ high then some (cs.drop 2)
  else none

/-- Reads a mark. -/
def mark? (c : Char) (cs : List Char) : Option (List Char) :=
  if cs.head? = some c then some cs.tail else none

/-- The number of days in a month of a year. -/
def daysIn (year month : Nat) : Nat :=
  if month = 2 then if year % 4 = 0 ∧ (year % 100 ≠ 0 ∨ year % 400 = 0) then 29 else 28
  else if month ∈ [4, 6, 9, 11] then 30
  else 31

/-- Reads a date; gives its text and the rest. -/
def date? (cs : List Char) : Option (List Char × List Char) := do
  let year := cs.take 4
  if !(year.length = 4 && year.all Char.isDigit) then none
  let month ← mark? '-' (cs.drop 4)
  let rest ← twoDigits? 1 12 month
  let rest ← mark? '-' rest
  let rest ← twoDigits? 1 (daysIn (Digits.toNat year) (Digits.toNat (month.take 2))) rest
  return (cs.take 10, rest)

/-- Reads a time of day; gives its text, with the fraction cut to what it needs, and the rest. -/
def time? (cs : List Char) : Option (List Char × List Char) := do
  let rest ← twoDigits? 0 23 cs
  let rest ← mark? ':' rest
  let rest ← twoDigits? 0 59 rest
  let rest ← mark? ':' rest
  let rest ← twoDigits? 0 60 rest
  if rest.head? = some '.' then
    let fraction := rest.tail.takeWhile Char.isDigit
    if fraction.isEmpty then none
    let kept := ((fraction.take 9).reverse.dropWhile (· = '0')).reverse
    return (cs.take 8 ++ (if kept.isEmpty then [] else '.' :: kept), rest.tail.drop fraction.length)
  else return (cs.take 8, rest)

/-- Reads an offset from universal time; gives its text. An offset of nothing is positive. -/
def offset? (cs : List Char) : Option (List Char) :=
  match cs with
  | [] => some []
  | c :: rest =>
    if c = 'Z' ∨ c = 'z' then (if rest.isEmpty then some ['Z'] else none)
    else if c = '+' ∨ c = '-' then do
      let after ← twoDigits? 0 23 rest
      let after ← mark? ':' after
      let after ← twoDigits? 0 59 after
      if after.isEmpty then some ((if rest.all "0:".toList.contains then '+' else c) :: rest)
      else none
    else none

/-- Reads a date, a time of day or both; gives the text in its standard form. -/
def datetime? (cs : List Char) : Option String :=
  match date? cs with
  | none => do
    let (time, rest) ← time? cs
    if rest.isEmpty then some (String.ofList time) else none
  | some (date, []) => some (String.ofList date)
  | some (date, c :: rest) =>
    if c = 'T' ∨ c = 't' ∨ c = ' ' then do
      let (time, rest) ← time? rest
      let offset ← offset? rest
      return String.ofList (date ++ 'T' :: time ++ offset)
    else none

/-- The value of a scalar. -/
def scalar? (cs : List Char) : Option Document :=
  if cs = ['t', 'r', 'u', 'e'] then some (.bool true)
  else if cs = ['f', 'a', 'l', 's', 'e'] then some (.bool false)
  else
    ((integer? cs).bind fun n =>
      if -(2 ^ 127) ≤ n ∧ n < 2 ^ 128 then some (.int n) else none) <|>
    float? cs <|> (datetime? cs).map .datetime

/-- Reads a scalar; a date may go on with a time after a space. -/
def readScalar? (cs : List Char) : Option (Document × List Char) :=
  let written := cs.takeWhile isScalarChar
  let rest := cs.drop written.length
  let timeAfter := rest.tail.takeWhile isScalarChar
  if (date? written).any (·.2.isEmpty) && rest.head? == some ' ' && (time? timeAfter).isSome then
    (scalar? (written ++ ' ' :: timeAfter)).map (·, rest.tail.drop timeAfter.length)
  else (scalar? written).map (·, rest)

end PriceOracle.Toml
