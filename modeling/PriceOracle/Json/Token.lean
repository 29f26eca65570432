import PriceOracle.Document
import PriceOracle.Text.Hex

/-!
# JSON tokens

`Token.scan` cuts a text into tokens in one pass over its characters. A text that is no sequence
of tokens ends in `Token.bad`.
-/

namespace PriceOracle.Json

/-- A token of JSON text. Strings and numbers that stand for no value carry `none`. -/
inductive Token where
  | openBrace
  | closeBrace
  | openBracket
  | closeBracket
  | comma
  | colon
  | scalar (value : Document)
  | string (text : Option String)
  | bad
  deriving Inhabited

namespace Token

/-- Joins escaped surrogate pairs and makes characters of code points; a lone surrogate fails. -/
def ofUnits : List Nat → Option (List Char)
  | [] => some []
  | u :: rest =>
    if 0xD800 ≤ u ∧ u < 0xDC00 then
      match rest with
      | [] => none
      | v :: rest' =>
        if 0xDC00 ≤ v ∧ v < 0xE000 then
          (ofUnits rest').map (Char.ofNat (0x10000 + (u - 0xD800) * 0x400 + (v - 0xDC00)) :: ·)
        else none
    else if 0xDC00 ≤ u ∧ u < 0xE000 then none
    else (ofUnits rest).map (Char.ofNat u :: ·)

/-- The code unit that a one-letter escape writes. -/
def escaped? (c : Char) : Option Nat :=
  if c = '"' then some 34
  else if c = '\\' then some 92
  else if c = '/' then some 47
  else if c = 'b' then some 8
  else if c = 'f' then some 12
  else if c = 'n' then some 10
  else if c = 'r' then some 13
  else if c = 't' then some 9
  else none

/-- The parts of a number: sign, whole digits, fraction, exponent. -/
structure Numeral where
  negative : Bool
  whole : List Char
  fraction : Option (List Char)
  exponent : Option (Bool × List Char)

/-- Splits an optional exponent, a mark with an optional sign and digits, off a number's end. -/
def exponentOf? (cs : List Char) : Option (Option (Bool × List Char)) :=
  match cs with
  | [] => some none
  | c :: rest =>
    if c = 'e' ∨ c = 'E' then
      let negative := rest.head? = some '-'
      let digits := if negative ∨ rest.head? = some '+' then rest.tail else rest
      if !digits.isEmpty && digits.all Char.isDigit then some (some (negative, digits)) else none
    else none

/-- Reads a number by the JSON grammar: no leading zeros, no plus sign, digits on both sides of
the point. -/
def numeral? (cs : List Char) : Option Numeral := do
  let negative := cs.head? = some '-'
  let cs := if negative then cs.tail else cs
  let whole := cs.takeWhile Char.isDigit
  let rest := cs.dropWhile Char.isDigit
  if whole.isEmpty || (whole.length > 1 && whole.head? == some '0') then none
  else if rest.head? = some '.' then
    let fraction := rest.tail.takeWhile Char.isDigit
    if fraction.isEmpty then none
    else return ⟨negative, whole, some fraction, ← exponentOf? (rest.tail.dropWhile Char.isDigit)⟩
  else return ⟨negative, whole, none, ← exponentOf? rest⟩

/-- An exponent capped where every number with more is zero or beyond every double. -/
def exponentValue (digits : List Char) : Int := min (Digits.toNat digits) 1000000

/-- The value of a number: an integer that fits 64 bits, else the nearest double. -/
def Numeral.value (n : Numeral) : Document :=
  let magnitude := Digits.toNat n.whole
  let float : Document :=
    let fraction := n.fraction.getD []
    let exponent : Int := match n.exponent with
      | none => 0
      | some (true, ds) => - exponentValue ds
      | some (false, ds) => exponentValue ds
    match Binary64.ofDecimal? n.negative (Digits.toNat (n.whole ++ fraction))
        (exponent - fraction.length) with
    | some x => .float x
    | none => .unreadable
  if n.fraction.isSome || n.exponent.isSome then float
  else if n.negative then
    if magnitude = 0 then float
    else if magnitude ≤ 2 ^ 63 then .int (-(magnitude : Int)) else float
  else if magnitude < 2 ^ 64 then .int magnitude else float

/-- The token of a run of number characters. -/
def ofNumber (cs : List Char) : Token :=
  match numeral? cs with
  | some n => .scalar n.value
  | none => .bad

/-- The token of a run of letters. -/
def ofWord (cs : List Char) : Token :=
  if cs = ['t', 'r', 'u', 'e'] then .scalar (.bool true)
  else if cs = ['f', 'a', 'l', 's', 'e'] then .scalar (.bool false)
  else if cs = ['n', 'u', 'l', 'l'] then .scalar .null
  else .bad

/-- Where the scanner is: between tokens, or within one whose characters so far are kept in
reverse. -/
inductive State where
  | between
  | string (units : List Nat)
  | escape (units : List Nat)
  | unicode (units : List Nat) (digits value : Nat)
  | number (chars : List Char)
  | word (chars : List Char)

/-- The token of a punctuation mark. -/
def mark? (c : Char) : Option Token :=
  if c = '{' then some .openBrace
  else if c = '}' then some .closeBrace
  else if c = '[' then some .openBracket
  else if c = ']' then some .closeBracket
  else if c = ',' then some .comma
  else if c = ':' then some .colon
  else none

/-- A blank of JSON text. -/
def isSpace (c : Char) : Bool := c = ' ' || c = '\n' || c = '\t' || c = '\r'

/-- A character of a number. -/
def isNumberChar (c : Char) : Bool :=
  c.isDigit || c = '-' || c = '+' || c = '.' || c = 'e' || c = 'E'

/-- Starts a token at a character that no token is waiting for: the tokens it completes and the
state it leaves. -/
def start (c : Char) : List Token × State :=
  if isSpace c then ([], .between)
  else match mark? c with
    | some t => ([t], .between)
    | none =>
      if c = '"' then ([], .string [])
      else if c.isDigit || c = '-' then ([], .number [c])
      else if c.isAlpha then ([], .word [c])
      else ([.bad], .between)

/-- One step of the scanner. -/
def advance : State → Char → List Token × State
  | .between, c => start c
  | .string units, c =>
    if c = '"' then
      ([.string ((ofUnits units.reverse).map String.ofList)], .between)
    else if c = '\\' then ([], .escape units)
    else if c.toNat < 32 then ([.bad], .between)
    else ([], .string (c.toNat :: units))
  | .escape units, c =>
    if c = 'u' then ([], .unicode units 0 0)
    else match escaped? c with
      | some u => ([], .string (u :: units))
      | none => ([.bad], .between)
  | .unicode units digits value, c =>
    match Hex.value? c with
    | none => ([.bad], .between)
    | some d =>
      if digits = 3 then ([], .string ((value * 16 + d) :: units))
      else ([], .unicode units (digits + 1) (value * 16 + d))
  | .number chars, c =>
    if isNumberChar c then ([], .number (c :: chars))
    else
      let (more, next) := start c
      (ofNumber chars.reverse :: more, next)
  | .word chars, c =>
    if c.isAlpha then ([], .word (c :: chars))
    else
      let (more, next) := start c
      (ofWord chars.reverse :: more, next)

/-- The tokens that the end of the text completes. -/
def finish : State → List Token
  | .between => []
  | .number chars => [ofNumber chars.reverse]
  | .word chars => [ofWord chars.reverse]
  | _ => [.bad]

/-- Scans on from a state. -/
def scanFrom : State → List Char → List Token
  | s, [] => finish s
  | s, c :: rest =>
    let (tokens, next) := advance s c
    tokens ++ scanFrom next rest

/-- The tokens of a text. -/
def scan (cs : List Char) : List Token := scanFrom .between cs

end Token

end PriceOracle.Json
