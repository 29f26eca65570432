import PriceOracle.Power
import PriceOracle.Text.Digits

/-!
# Binary floating-point numbers

A `Binary64` is a finite double: a sign, a significand below `2 ^ 53` and a binary exponent.

* `Binary64.nearest?` rounds an exact fraction to the nearest double, ties to the even
  significand; a magnitude beyond the largest double has none.
* `Binary64.shortest` finds the fewest decimal digits that round back to the same double, and of
  those the nearest to it.
-/

namespace PriceOracle

/-- A finite double, `± significand * 2 ^ exponent`. -/
structure Binary64 where
  negative : Bool
  significand : Nat
  exponent : Int
  deriving DecidableEq

namespace Binary64

/-- The least exponent, that of the subnormal numbers. -/
def minExponent : Int := -1074

/-- The largest exponent of a finite double. -/
def maxExponent : Int := 971

/-- The number of bits of a natural number. -/
def bitLength (n : Nat) : Nat := if n = 0 then 0 else n.log2 + 1

/-- `a / b` rounded to an integer, ties to even. -/
def roundDiv (a b : Nat) : Nat :=
  let q := a / b
  let r := a % b
  if 2 * r < b then q else if b < 2 * r then q + 1 else q + q % 2

/-- `num / den * 2 ^ (-e)` rounded to an integer, ties to even. -/
def scaledRound (num den : Nat) (e : Int) : Nat :=
  if 0 ≤ e then roundDiv num (den * 2 ^ e.toNat) else roundDiv (num * 2 ^ (-e).toNat) den

/-- The exponent at which `num / den` has 53 or 54 bits before the point, or the least one. -/
def startExponent (num den : Nat) : Int :=
  max minExponent ((bitLength num : Int) - (bitLength den : Int) - 53)

/-- The double nearest to `num / den`; none when it would exceed the largest double. -/
def nearest? (negative : Bool) (num den : Nat) : Option Binary64 :=
  let e₀ := startExponent num den
  -- One bit more or less, whichever leaves a significand of at most 53 bits.
  let e := if bitLength (scaledRound num den e₀) ≤ 53 then e₀ else e₀ + 1
  let s := scaledRound num den e
  let (s, e) := if s = 2 ^ 53 then (2 ^ 52, e + 1) else (s, e)
  if s = 0 then some ⟨negative, 0, minExponent⟩
  else if maxExponent < e then none
  else some ⟨negative, s, e⟩

/-- The double nearest to `digits * 10 ^ e`. Exponents beyond every double are settled first. -/
def ofDecimal? (negative : Bool) (digits : Nat) (e : Int) : Option Binary64 :=
  let size := (Digits.ofNat digits).length
  if digits = 0 then some ⟨negative, 0, minExponent⟩
  else if 400 < e + size then none
  else if e + size < -400 then some ⟨negative, 0, minExponent⟩
  else if 0 ≤ e then nearest? negative (digits * 10 ^ e.toNat) 1
  else nearest? negative digits (10 ^ (-e).toNat)

def isZero (x : Binary64) : Bool := x.significand == 0

/-- The magnitude as an exact fraction. -/
def magnitude (x : Binary64) : Nat × Nat :=
  if 0 ≤ x.exponent then (x.significand * 2 ^ x.exponent.toNat, 1)
  else (x.significand, 2 ^ (-x.exponent).toNat)

/-- The integer that a double is, when it has no fractional part. -/
def toInt? (x : Binary64) : Option Int :=
  let (num, den) := x.magnitude
  if num % den = 0 then some (if x.negative then -(num / den : Nat) else (num / den : Nat))
  else none

/-- Decimal digits and the power of ten that scales them. -/
abbrev Digits10 := Nat × Int

/-- The distance of `digits * 10 ^ e` from `num / den`, as a numerator over `den * 10 ^ 400`. -/
def gap (num den : Nat) (d : Digits10) : Nat :=
  let scale := 10 ^ 400
  let there := d.1 * 10 ^ (d.2 + 400).toNat * den
  let here := num * scale
  if here ≤ there then there - here else here - there

/-- The decimal exponent of the leading digit of a positive fraction, plus one. -/
def magnitude10 (num den : Nat) : Int :=
  let approx : Int := (Digits.ofNat num).length - (Digits.ofNat den).length
  -- The estimate is exact or one too small.
  if 0 ≤ approx then
    (if den * 10 ^ approx.toNat ≤ num then approx + 1 else approx)
  else
    (if den ≤ num * 10 ^ (-approx).toNat then approx + 1 else approx)

/-- The two neighbours of `num / den` on the grid of multiples of `10 ^ e`. -/
def neighbours (num den : Nat) (e : Int) : List Digits10 :=
  let q := if 0 ≤ e then num / (den * 10 ^ e.toNat) else num * 10 ^ (-e).toNat / den
  [(q, e), (q + 1, e)]

/-- The first grid with a neighbour that rounds back, from `n` digits on. -/
def shortestFrom (x : Binary64) (num den : Nat) (top : Int) : (tries n : Nat) → Digits10
  | 0, n => (0, top - n)
  | tries + 1, n =>
    let hits := (neighbours num den (top - n)).filter fun d =>
      ofDecimal? x.negative d.1 d.2 == some x
    match hits with
    | [] => shortestFrom x num den top tries (n + 1)
    | [d] => d
    | d :: d' :: _ => if gap num den d' < gap num den d then d' else d

/-- Drops trailing zeros of the digits. -/
def dropZeros : (tries : Nat) → Digits10 → Digits10
  | 0, d => d
  | tries + 1, (n, e) => if n ≠ 0 ∧ n % 10 = 0 then dropZeros tries (n / 10, e + 1) else (n, e)

/-- The fewest digits that round back to the double, and of those the nearest. -/
def shortest (x : Binary64) : Digits10 :=
  if x.significand = 0 then (0, 0)
  else
    let (num, den) := x.magnitude
    dropZeros 20 (shortestFrom x num den (magnitude10 num den) 17 1)

/-- Positional notation: digits, a point where needed, and no exponent. -/
def positional (d : Digits10) : List Char :=
  let ds := Digits.ofNat d.1
  if 0 ≤ d.2 then ds ++ List.replicate d.2.toNat '0'
  else
    let places := (-d.2).toNat
    let padded := Digits.padded (places + 1) d.1
    padded.take (padded.length - places) ++ '.' :: padded.drop (padded.length - places)

/-- The sign of a double, also of a negative zero. -/
def sign (x : Binary64) : List Char := if x.negative then ['-'] else []

/-- Positional notation without a fraction where there is none: `0.1`, `1000`, `-0`. -/
def plainText (x : Binary64) : List Char := x.sign ++ positional x.shortest

/-- The form of a JSON number: positional with a fraction for leading digits from `1e-5` up to
`1e16`, else one digit before the point and a signed exponent. -/
def jsonText (x : Binary64) : List Char :=
  let d := x.shortest
  let ds := Digits.ofNat d.1
  let point := (ds.length : Int) + d.2
  if d.1 = 0 then x.sign ++ ['0', '.', '0']
  else if -5 < point && point ≤ 16 then
    x.sign ++ positional d ++ (if 0 ≤ d.2 then ['.', '0'] else [])
  else
    let fraction := ds.tail
    x.sign ++ ds.take 1 ++ (if fraction.isEmpty then [] else '.' :: fraction) ++ ['e'] ++
      (if 0 ≤ point - 1 then ['+'] else ['-']) ++ Digits.ofNat (point - 1).natAbs

end Binary64

end PriceOracle
