import PriceOracle.Power
import PriceOracle.Text.Digits
import PriceOracle.Text.Hex
import PriceOracle.Text.Split

/-!
# URLs

`Url.isWellFormed` tells whether a text is an absolute URL. It looks at the parts on which a reader
of URLs can fail: the scheme, the host and the port.
-/

namespace PriceOracle.Url

/-- Blanks and control characters, which are dropped at both ends. -/
def isPadding (c : Char) : Bool := c.toNat ≤ 32

/-- The text of a URL without padding, tabs and line ends. -/
def cleaned (s : String) : List Char :=
  let inner := ((s.toList.dropWhile isPadding).reverse.dropWhile isPadding).reverse
  inner.filter fun c => c ≠ '\t' && c ≠ '\n' && c ≠ '\r'

/-- A character of a scheme after the first. -/
def isSchemeChar (c : Char) : Bool := c.isAlphanum || c = '+' || c = '-' || c = '.'

/-- The scheme in lower case, and what follows its colon. -/
def scheme? (cs : List Char) : Option (List Char × List Char) :=
  let scheme := cs.takeWhile isSchemeChar
  let rest := cs.dropWhile isSchemeChar
  if scheme.head?.any Char.isAlpha && rest.head? = some ':' then
    some (scheme.map Char.toLower, rest.tail)
  else none

/-- The schemes whose URLs always name a host. -/
def hostSchemes : List String := ["http", "https", "ws", "wss", "ftp"]

/-- The end of the part that names host and port. -/
def endsAuthority (special : Bool) (c : Char) : Bool :=
  c = '/' || c = '?' || c = '#' || (special && c = '\\')

/-- What follows the last of some characters in a text. -/
def afterLast (mark : Char) (cs : List Char) : List Char := (Text.splitOn mark cs).getLast?.getD cs

/-- Host and port of an authority, without a user name. -/
def hostAndPort (authority : List Char) : List Char × List Char :=
  let cs := afterLast '@' authority
  if cs.head? = some '[' then
    let host := cs.takeWhile (· ≠ ']')
    (host ++ (cs.dropWhile (· ≠ ']')).take 1, cs.drop (host.length + 1))
  else (cs.takeWhile (· ≠ ':'), cs.dropWhile (· ≠ ':'))

/-- A port is missing, or a number of sixteen bits after a colon. -/
def isPort (cs : List Char) : Bool :=
  match cs with
  | [] => true
  | ':' :: digits => digits.all Char.isDigit && Digits.toNat digits < 65536
  | _ => false

/-- Characters that no host has. -/
def isForbiddenInHost (c : Char) : Bool :=
  c.toNat ≤ 32 || c.toNat = 127 || "#%/:<>?@[\\]^|".toList.contains c

/-- The number that a part of an address of four parts writes: decimal, octal or hexadecimal. -/
def ipv4Part? (cs : List Char) : Option Nat :=
  match cs with
  | '0' :: x :: digits =>
    if x = 'x' ∨ x = 'X' then if digits.isEmpty then some 0 else Hex.toNat? digits
    else if (x :: digits).all fun c => '0' ≤ c && c ≤ '7' then
      some ((x :: digits).foldl (fun n c => n * 8 + (c.toNat - 48)) 0)
    else none
  | cs => Digits.toNat? cs

/-- An address of up to four numbers, of which the last fills what the others leave. -/
def isIpv4 (parts : List (List Char)) : Bool :=
  match parts.mapM ipv4Part? with
  | none => false
  | some numbers =>
    numbers.length ≤ 4 && numbers.dropLast.all (· < 256) &&
      decide (numbers.getLast?.getD 0 < 256 ^ (5 - numbers.length))

/-- A host that ends in a number is an address and has to be a proper one. -/
def endsInNumber (parts : List (List Char)) : Bool :=
  match parts.getLast? with
  | some last => !last.isEmpty && (last.all Char.isDigit || (ipv4Part? last).isSome)
  | none => false

/-- A group of an address in brackets. -/
def isIpv6Group (cs : List Char) : Bool := !cs.isEmpty && cs.length ≤ 4 && Hex.isHex cs

/-- An address in brackets: eight groups, or fewer around one double colon. -/
def isIpv6 (cs : List Char) : Bool :=
  let groups := Text.splitOn ':' cs
  let empties := groups.filter List.isEmpty
  let filled := groups.filter fun g => !g.isEmpty
  filled.all isIpv6Group &&
    (if empties.isEmpty then groups.length = 8
    else filled.length ≤ 7 && (empties.length = 1 || cs.take 2 = [':', ':'] ||
      cs.reverse.take 2 = [':', ':']) && (cs.filter (· = ':')).length ≤ 8)

/-- A host that a request can go to. -/
def isHost (cs : List Char) : Bool :=
  match cs with
  | '[' :: rest => rest.getLast? = some ']' && isIpv6 rest.dropLast
  | cs =>
    let labels := Text.splitOn '.' cs
    let parts := if labels.getLast? = some [] then labels.dropLast else labels
    !cs.isEmpty && !cs.any isForbiddenInHost && (!endsInNumber parts || isIpv4 parts)

/-- The authority of a URL with a host. -/
def isAuthority (special : Bool) (cs : List Char) : Bool :=
  let (host, port) := hostAndPort (cs.takeWhile fun c => !endsAuthority special c)
  isPort port && (isHost host || (!special && host.isEmpty && port.isEmpty))

/-- Whether a text is an absolute URL. -/
def isWellFormed (s : String) : Bool :=
  match scheme? (cleaned s) with
  | none => false
  | some (scheme, rest) =>
    if hostSchemes.contains (String.ofList scheme) then
      isAuthority true (rest.dropWhile fun c => c = '/' || c = '\\')
    else if scheme = "file".toList then true
    else if rest.take 2 = ['/', '/'] then isAuthority false (rest.drop 2)
    else true

end PriceOracle.Url
