import PriceOracle.Toml.Text
import PriceOracle.Toml.Scalar
import PriceOracle.Toml.Table

/-!
# Reading TOML text

A text is a list of statements, one a line: headers, which name the table that the following
entries belong to, and entries. `Toml.read?` gives the table that they build, and nothing for a
text that is not TOML or defines something twice.
-/

namespace PriceOracle.Toml

/-- A line of a text. -/
inductive Statement where
  | header (path : List String)
  | itemHeader (path : List String)
  | entry (path : List String) (value : Document)

mutual

/-- Reads a value. -/
def value : (fuel : Nat) → Scan Document
  | 0, _ => none
  | fuel + 1, cs =>
    match cs with
    | '[' :: rest => (items fuel rest).map fun (ds, rest) => (.seq ds, rest)
    | '\x7b' :: rest => (members fuel true .empty rest).map fun (n, rest) => (n.toDocument, rest)
    | c :: _ =>
      if c = '"' ∨ c = '\'' then (string? cs).map fun (s, rest) => (.str (String.ofList s), rest)
      else readScalar? cs
    | [] => none

/-- Reads the items of an array after its opening bracket. -/
def items : (fuel : Nat) → Scan (List Document)
  | 0, _ => none
  | fuel + 1, cs => do
    let cs ← skipSpace cs.length cs
    if cs.head? = some ']' then return ([], cs.tail)
    let (d, rest) ← value fuel cs
    let rest ← skipSpace rest.length rest
    if rest.head? = some ',' then
      let (more, rest) ← items fuel rest.tail
      return (d :: more, rest)
    else if rest.head? = some ']' then return ([d], rest.tail)
    else none

/-- Reads the members of a table within a line after its opening brace or a comma. -/
def members : (fuel : Nat) → (first : Bool) → Node → Scan Node
  | 0, _, _, _ => none
  | fuel + 1, first, node, cs => do
    let cs := skipBlanks cs
    if first && cs.head? = some '\x7d' then return (node, cs.tail)
    let (path, rest) ← path? cs
    let rest ← mark? '=' rest
    let (d, rest) ← value fuel (skipBlanks rest)
    let node ← node.insert path d
    let rest := skipBlanks rest
    if rest.head? = some ',' then members fuel false node rest.tail
    else if rest.head? = some '\x7d' then return (node, rest.tail)
    else none

end

/-- Reads a statement at its first character. -/
def statement? (cs : List Char) : Option (Statement × List Char) :=
  match cs with
  | '[' :: '[' :: rest => do
    let (path, rest) ← path? rest
    let rest ← mark? ']' rest
    let rest ← mark? ']' rest
    return (.itemHeader path, rest)
  | '[' :: rest => do
    let (path, rest) ← path? rest
    let rest ← mark? ']' rest
    return (.header path, rest)
  | _ => do
    let (path, rest) ← path? cs
    let rest ← mark? '=' rest
    let rest := skipBlanks rest
    let (d, rest) ← value (rest.length + 1) rest
    return (.entry path d, rest)

/-- Reads the statements of a text. -/
def statements : (fuel : Nat) → List Char → Option (List Statement)
  | 0, _ => none
  | fuel + 1, cs => do
    let cs ← skipSpace cs.length cs
    if cs.isEmpty then return []
    let (s, rest) ← statement? cs
    let rest ← endOfLine? rest
    let more ← statements fuel rest
    return s :: more

/-- Builds the table of some statements; `path` is the table that entries belong to. -/
def build : (path : List String) → Node → List Statement → Option Node
  | _, node, [] => some node
  | _, node, .header keys :: rest => do build keys (← node.openTable keys) rest
  | _, node, .itemHeader keys :: rest => do build keys (← node.openItem keys) rest
  | path, node, .entry keys d :: rest => do
    build path (← node.alter false (·.insert keys d) path) rest

/-- Line breaks of two characters as one. -/
def unixBreaks : List Char → List Char
  | [] => []
  | c :: rest =>
    if c = '\r' ∧ rest.head? = some '\n' then unixBreaks rest else c :: unixBreaks rest

/-- The table of a TOML text. A byte order mark at the start does not count. -/
def read? (cs : List Char) : Option Document := do
  let cs := unixBreaks (if cs.head? = some '\ufeff' then cs.tail else cs)
  let node ← build [] .empty (← statements (cs.length + 1) cs)
  return node.toDocument

end PriceOracle.Toml
