import PriceOracle.Text.Hex

/-!
# TOML: blanks, strings and keys

Every scanner takes the text from the current place on and gives what it read together with the
rest, or nothing when the text does not fit.
-/

namespace PriceOracle.Toml

/-- Reads a part of a text. -/
abbrev Scan (α : Type) := List Char → Option (α × List Char)

/-- A blank within a line. -/
def isBlank (c : Char) : Bool := c = ' ' || c = '\t'

/-- A character that may stand in comments and strings: all but the control characters other than
the tabulator. -/
def isPrintable (c : Char) : Bool := c = '\t' || (32 ≤ c.toNat && c.toNat ≠ 127)

/-- Drops blanks within a line. -/
def skipBlanks (cs : List Char) : List Char := cs.dropWhile isBlank

/-- Drops blanks and a comment up to the end of the line; fails where anything else follows. The
rest starts at the line break. -/
def endOfLine? (cs : List Char) : Option (List Char) :=
  match skipBlanks cs with
  | [] => some []
  | '\n' :: rest => some ('\n' :: rest)
  | '#' :: rest =>
    let rest := rest.dropWhile isPrintable
    if rest.isEmpty || rest.head? == some '\n' then some rest else none
  | _ => none

/-- Drops blanks, line breaks and comments. -/
def skipSpace : (fuel : Nat) → List Char → Option (List Char)
  | 0, cs => some cs
  | fuel + 1, cs =>
    match skipBlanks cs with
    | '\n' :: rest => skipSpace fuel rest
    | '#' :: rest => (endOfLine? ('#' :: rest)).bind (skipSpace fuel)
    | rest => some rest

/-- Reads a code point written with a number of hexadecimal digits. -/
def codePoint? (digits : Nat) (cs : List Char) : Option (Char × List Char) := do
  let written := cs.take digits
  if written.length ≠ digits then none
  let n ← Hex.toNat? written
  if n < 0xD800 ∨ (0xE000 ≤ n ∧ n < 0x110000) then some (Char.ofNat n, cs.drop digits) else none

/-- Reads an escape after its backslash. -/
def escape? : Scan Char
  | [] => none
  | c :: rest =>
    if c = 'b' then some (Char.ofNat 8, rest)
    else if c = 't' then some ('\t', rest)
    else if c = 'n' then some ('\n', rest)
    else if c = 'f' then some (Char.ofNat 12, rest)
    else if c = 'r' then some ('\r', rest)
    else if c = '"' then some ('"', rest)
    else if c = '\\' then some ('\\', rest)
    else if c = 'u' then codePoint? 4 rest
    else if c = 'U' then codePoint? 8 rest
    else none

/-- Reads a string after its opening quote, up to its end on the same line. -/
def basic : (fuel : Nat) → Scan (List Char)
  | 0, _ => none
  | _ + 1, [] => none
  | fuel + 1, c :: rest =>
    if c = '"' then some ([], rest)
    else if c = '\\' then do
      let (escaped, rest) ← escape? rest
      let (more, rest) ← basic fuel rest
      return (escaped :: more, rest)
    else if isPrintable c then do
      let (more, rest) ← basic fuel rest
      return (c :: more, rest)
    else none

/-- Reads a string without escapes after its opening quote. -/
def literal (cs : List Char) : Option (List Char × List Char) :=
  let body := cs.takeWhile fun c => c ≠ '\'' && isPrintable c
  match cs.drop body.length with
  | '\'' :: rest => some (body, rest)
  | _ => none

/-- The number of quotes at the start of a text, up to five. -/
def quotes (quote : Char) (cs : List Char) : Nat := ((cs.take 5).takeWhile (· = quote)).length

/-- Reads a string over several lines after its opening quotes. -/
def basicLines : (fuel : Nat) → Scan (List Char)
  | 0, _ => none
  | _ + 1, [] => none
  | fuel + 1, c :: rest =>
    let closing := quotes '"' (c :: rest)
    if 3 ≤ closing then
      some (List.replicate (closing - 3) '"', (c :: rest).drop closing)
    else if c = '\\' then
      let spaces := rest.takeWhile fun c => isBlank c || c = '\n'
      if (skipBlanks rest).head? = some '\n' then basicLines fuel (rest.drop spaces.length)
      else do
        let (escaped, rest) ← escape? rest
        let (more, rest) ← basicLines fuel rest
        return (escaped :: more, rest)
    else if isPrintable c || c = '\n' then do
      let (more, rest) ← basicLines fuel rest
      return (c :: more, rest)
    else none

/-- Reads a string without escapes over several lines after its opening quotes. -/
def literalLines : (fuel : Nat) → Scan (List Char)
  | 0, _ => none
  | _ + 1, [] => none
  | fuel + 1, c :: rest =>
    let closing := quotes '\'' (c :: rest)
    if 3 ≤ closing then
      some (List.replicate (closing - 3) '\'', (c :: rest).drop closing)
    else if isPrintable c || c = '\n' then do
      let (more, rest) ← literalLines fuel rest
      return (c :: more, rest)
    else none

/-- Drops a line break at the start. -/
def dropBreak (cs : List Char) : List Char := if cs.head? = some '\n' then cs.tail else cs

/-- Reads a string of any of the four kinds at its opening quote. -/
def string? (cs : List Char) : Option (List Char × List Char) :=
  let fuel := cs.length + 1
  match cs with
  | '"' :: '"' :: '"' :: rest => basicLines fuel (dropBreak rest)
  | '\'' :: '\'' :: '\'' :: rest => literalLines fuel (dropBreak rest)
  | '"' :: rest => basic fuel rest
  | '\'' :: rest => literal rest
  | _ => none

/-- A character of a key without quotes. -/
def isBare (c : Char) : Bool := c.isAlphanum || c = '-' || c = '_'

/-- Reads one key, bare or between quotes. -/
def key? (cs : List Char) : Option (String × List Char) :=
  match cs with
  | '"' :: rest => (basic (cs.length + 1) rest).map fun (key, rest) => (String.ofList key, rest)
  | '\'' :: rest => (literal rest).map fun (key, rest) => (String.ofList key, rest)
  | _ =>
    let bare := cs.takeWhile isBare
    if bare.isEmpty then none else some (String.ofList bare, cs.drop bare.length)

/-- Reads keys joined by dots. Blanks may stand around each of them. -/
def keys : (fuel : Nat) → Scan (List String)
  | 0, _ => none
  | fuel + 1, cs => do
    let (key, rest) ← key? (skipBlanks cs)
    let rest := skipBlanks rest
    if rest.head? = some '.' then
      let (more, rest) ← keys fuel rest.tail
      return (key :: more, rest)
    else return ([key], rest)

/-- Reads the keys of an entry or a header. -/
def path? (cs : List Char) : Option (List String × List Char) := keys (cs.length + 1) cs

end PriceOracle.Toml
