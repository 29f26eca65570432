import PriceOracle.Crypto.Keccak
import PriceOracle.Text.Blank
import PriceOracle.Source.Error

/-!
# Method signatures

A contract source names a method without arguments, as `price`, `price()` or with spaces around
the parentheses. `Signature.canonical` gives the one written form `price()`, from which the
selector, the first four bytes of its digest, is taken.
-/

namespace PriceOracle.Signature

/-- A character of a method name. -/
def isNameChar (c : Char) : Bool := c.isAlphanum || c == '_'

/-- What stands before the first parenthesis, without blanks at its end. -/
def nameOf (method : List Char) : List Char := Text.trimEnd (method.takeWhile (· ≠ '('))

/-- The one written form of a method, or what is wrong with it. -/
def canonical (method : String) : Except SourceError String :=
  let text := Text.trim method.toList
  let shown := String.ofList text
  let name := nameOf text
  let rest := (text.drop name.length).filter (· ≠ ' ')
  if name.isEmpty || !name.all isNameChar then
    .error (.invalidSource s!"'{shown}' is not a valid method name")
  else if name.head?.any Char.isDigit then
    .error (.invalidSource s!"method '{shown}' starts with a digit")
  else if rest = [] ∨ rest = ['(', ')'] then .ok (String.ofList (name ++ ['(', ')']))
  else if rest.head? = some '(' ∧ rest.getLast? = some ')' ∧ 2 < rest.length then
    .error (.invalidSource
      s!"method '{shown}' takes arguments; only zero-argument calls are supported")
  else .error (.invalidSource s!"malformed signature '{shown}'")

/-- The four bytes that select a method in a call. -/
def selector (method : String) : Except SourceError (List UInt8) := do
  return (Keccak.digestText (← canonical method)).take 4

end PriceOracle.Signature
