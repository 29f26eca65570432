import PriceOracle.Binary64

/-!
# Floating-point numerals

How a written numeral is read as the nearest double, however long it is and however large its
exponent.
-/

namespace PriceOracle.Binary64

/-- The exponent of a floating-point numeral, without its mark. -/
def numeralExponent? (cs : List Char) : Option Int :=
  let negative := cs.head? = some '-'
  let digits := if negative ∨ cs.head? = some '+' then cs.tail else cs
  (Digits.toNat? digits).map fun n => if negative then -(n : Int) else n

/-- The exponent at the end of a floating-point numeral; there may be none. -/
def trailingExponent? : List Char → Option Int
  | [] => some 0
  | c :: rest => if c = 'e' ∨ c = 'E' then numeralExponent? rest else none

/-- The double nearest to a floating-point numeral: an optional sign, digits with at most one
point, and an optional exponent. None for other texts and beyond the largest double. -/
def ofNumeral? (cs : List Char) : Option Binary64 :=
  let negative := cs.head? = some '-'
  let cs := if negative ∨ cs.head? = some '+' then cs.tail else cs
  let whole := cs.takeWhile Char.isDigit
  let rest := cs.dropWhile Char.isDigit
  let pointed := rest.head? = some '.'
  let fraction := if pointed then rest.tail.takeWhile Char.isDigit else []
  let rest := if pointed then rest.tail.dropWhile Char.isDigit else rest
  if (whole ++ fraction).isEmpty then none
  else (trailingExponent? rest).bind fun e =>
    ofDecimal? negative (Digits.toNat (whole ++ fraction)) (e - fraction.length)

end PriceOracle.Binary64
