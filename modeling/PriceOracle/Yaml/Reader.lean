import PriceOracle.Yaml.Scalar
import PriceOracle.Text.Split

/-!
# Reading YAML text

Block and flow maps and lists, plain and quoted scalars, and comments. What belongs together in
a block is told by the column in which it starts, so the reader carries the column along with the
rest of the text. `Yaml.read?` gives nothing for a text outside this form.
-/

namespace PriceOracle.Yaml

/-- A place in a text. -/
structure Cursor where
  column : Nat
  rest : List Char

namespace Cursor

/-- The place after one character. -/
def next (c : Cursor) : Cursor :=
  match c.rest with
  | [] => c
  | '\n' :: rest => ⟨0, rest⟩
  | _ :: rest => ⟨c.column + 1, rest⟩

/-- The place after some characters of the line. -/
def forward (c : Cursor) (n : Nat) : Cursor := ⟨c.column + n, c.rest.drop n⟩

def head? (c : Cursor) : Option Char := c.rest.head?

end Cursor

def isBlank (c : Char) : Bool := c = ' ' || c = '\t'

/-- Whether a text starts with a blank or a line break, or is at its end. -/
def endsWord (cs : List Char) : Bool := cs.head?.all fun c => isBlank c || c = '\n'

/-- A mark that has a meaning of its own within brackets. -/
def isFlowMark (c : Char) : Bool := c = ',' || c = '[' || c = ']' || c = '\x7b' || c = '\x7d'

/-- A place reached over blanks, and whether a line starts before it. -/
structure Reached where
  cursor : Cursor
  fresh : Bool

/-- Goes over blanks, comments and line breaks. A block may not be indented by tabulators. -/
def skip (inFlow : Bool) : (fuel : Nat) → (fresh : Bool) → Cursor → Option Reached
  | 0, fresh, c => some ⟨c, fresh⟩
  | fuel + 1, fresh, c =>
    match c.rest with
    | ' ' :: _ => skip inFlow fuel fresh c.next
    | '\t' :: _ => if fresh && !inFlow then none else skip inFlow fuel fresh c.next
    | '\n' :: _ => skip inFlow fuel true c.next
    | '#' :: rest => skip inFlow fuel fresh ⟨0, rest.dropWhile (· ≠ '\n')⟩
    | _ => some ⟨c, fresh⟩

/-- `skip` with enough fuel for the rest of the text. -/
def skipAll (inFlow fresh : Bool) (c : Cursor) : Option Reached :=
  skip inFlow (c.rest.length + 1) fresh c

/-- Whether a colon at the start of a text ends a key. -/
def endsKey (inFlow : Bool) (cs : List Char) : Bool :=
  cs.head? = some ':' && (endsWord cs.tail || (inFlow && cs.tail.head?.any isFlowMark))

/-- The plain characters up to the end of a line, of a key, or the start of a comment. -/
def plainRun (inFlow : Bool) : (afterBlank : Bool) → List Char → List Char
  | _, [] => []
  | afterBlank, c :: rest =>
    if c = '\n' || endsKey inFlow (c :: rest) || (c = '#' && afterBlank) ||
        (inFlow && isFlowMark c) then []
    else c :: plainRun inFlow (isBlank c) rest

/-- Whether a plain scalar may start here. -/
def startsPlain (inFlow : Bool) (cs : List Char) : Bool :=
  match cs with
  | [] => false
  | c :: rest =>
    if c = '-' || c = '?' || c = ':' then
      !endsWord rest && !(inFlow && rest.head?.any isFlowMark)
    else !(isFlowMark c || "#&*!|>'\"%@\x60".toList.contains c)

/-- Drops blanks at the end. -/
def trimBlanks (cs : List Char) : List Char := (cs.reverse.dropWhile isBlank).reverse

/-- A plain scalar on one line: its text and the place after it. -/
def plainLine (inFlow : Bool) (c : Cursor) : List Char × Cursor :=
  let run := plainRun inFlow false c.rest
  (trimBlanks run, c.forward run.length)

/-- The blanks and line breaks at the start of a text. -/
def spaces (cs : List Char) : List Char := cs.takeWhile fun c => isBlank c || c = '\n'

/-- The number of line breaks at the start of a text, over blanks. -/
def breaks (cs : List Char) : Nat := (spaces cs).count '\n'

/-- What some line breaks within a scalar stand for: one for a space, more for all but one. -/
def fold (n : Nat) : List Char := if n ≤ 1 then [' '] else List.replicate (n - 1) '\n'

/-- Reads on a plain scalar over the lines that are indented far enough. -/
def plainLines (inFlow : Bool) (least : Nat) : (fuel : Nat) → Cursor → Option (List Char × Cursor)
  | 0, _ => none
  | fuel + 1, c => do
    let (text, after) := plainLine inFlow c
    let count := breaks after.rest
    let gap := spaces after.rest
    let reached := after.rest.drop gap.length
    let column := (gap.reverse.takeWhile (· ≠ '\n')).length
    if count = 0 || reached.isEmpty || reached.head? = some '#' then return (text, after)
    else if inFlow then
      if reached.head?.any fun c => isFlowMark c || c = ':' then return (text, after)
      else
        let (more, after) ← plainLines inFlow least fuel ⟨column, reached⟩
        return (text ++ fold count ++ more, after)
    else if column < least then return (text, after)
    else
      let (more, after) ← plainLines inFlow least fuel ⟨column, reached⟩
      if endsKey false after.rest then none
      return (text ++ fold count ++ more, after)

/-- Reads a string between single quotes after the first of them. -/
def singleQuoted : (fuel : Nat) → Cursor → Option (List Char × Cursor)
  | 0, _ => none
  | fuel + 1, c =>
    match c.rest with
    | [] => none
    | '\'' :: '\'' :: _ => do
      let (more, after) ← singleQuoted fuel (c.forward 2)
      return ('\'' :: more, after)
    | '\'' :: _ => some ([], c.next)
    | '\n' :: _ => do
      let (more, after) ← singleQuoted fuel ⟨0, c.rest.drop (spaces c.rest).length⟩
      return (fold (breaks c.rest) ++ more, after)
    | ch :: _ => do
      let (more, after) ← singleQuoted fuel c.next
      -- Blanks before a line break do not count.
      return (if isBlank ch && 0 < breaks c.rest then more else ch :: more, after)

/-- The code point of an escape of one letter. -/
def escaped? (c : Char) : Option Nat :=
  ([('0', 0), ('a', 7), ('b', 8), ('t', 9), ('n', 10), ('v', 11), ('f', 12), ('r', 13), ('e', 27),
    (' ', 32), ('"', 34), ('/', 47), ('\\', 92), ('N', 0x85), ('_', 0xA0), ('L', 0x2028),
    ('P', 0x2029)] : List (Char × Nat)).lookup c

/-- The number of hexadecimal digits of an escape. -/
def escapeDigits? (c : Char) : Option Nat :=
  if c = 'x' then some 2 else if c = 'u' then some 4 else if c = 'U' then some 8 else none

/-- Reads a string between double quotes after the first of them. -/
def doubleQuoted : (fuel : Nat) → Cursor → Option (List Char × Cursor)
  | 0, _ => none
  | fuel + 1, c =>
    match c.rest with
    | [] => none
    | '"' :: _ => some ([], c.next)
    | '\\' :: '\n' :: rest => do
      let blanks := rest.takeWhile isBlank
      doubleQuoted fuel ⟨blanks.length, rest.drop blanks.length⟩
    | '\\' :: letter :: rest =>
      match escapeDigits? letter with
      | some n => do
        let value ← Hex.toNat? (rest.take n)
        if (rest.take n).length ≠ n || (0xD800 ≤ value && value < 0xE000) || 0x110000 ≤ value then
          none
        let (more, after) ← doubleQuoted fuel (c.forward (n + 2))
        return (Char.ofNat value :: more, after)
      | none => do
        let value ← escaped? letter
        let (more, after) ← doubleQuoted fuel (c.forward 2)
        return (Char.ofNat value :: more, after)
    | '\n' :: _ => do
      let (more, after) ← doubleQuoted fuel ⟨0, c.rest.drop (spaces c.rest).length⟩
      return (fold (breaks c.rest) ++ more, after)
    | ch :: _ => do
      let (more, after) ← doubleQuoted fuel c.next
      -- Blanks before a line break do not count.
      return (if isBlank ch && 0 < breaks c.rest then more else ch :: more, after)

/-- Reads a string between quotes of either kind. -/
def quoted? (c : Cursor) : Option (List Char × Cursor) :=
  let fuel := c.rest.length + 1
  if c.head? = some '"' then doubleQuoted fuel c.next
  else if c.head? = some '\'' then singleQuoted fuel c.next
  else none

/-- The scalar that stands for a value left out. -/
def absent : Document := plain []

/-- Takes a key out of a scalar. -/
def keyText : Document → Option String
  | .str s => some s
  | .plain text _ => some text
  | _ => none

mutual

/-- Reads a value within brackets. -/
def flowNode : (fuel : Nat) → Cursor → Option (Document × Cursor)
  | 0, _ => none
  | fuel + 1, c =>
    match c.head? with
    | some '[' => (flowItems fuel c.next).map fun (ds, c) => (.list ds, c)
    | some '\x7b' => (flowMembers fuel c.next).map fun (ms, c) => (.map ms, c)
    | some '"' | some '\'' => (quoted? c).map fun (s, c) => (.str (String.ofList s), c)
    | _ =>
      if startsPlain true c.rest then
        (plainLines true 0 (c.rest.length + 1) c).map fun (s, c) => (plain s, c)
      else none

/-- Reads the items of a list after its bracket or a comma. -/
def flowItems : (fuel : Nat) → Cursor → Option (List Document × Cursor)
  | 0, _ => none
  | fuel + 1, c => do
    let c := (← skipAll true false c).cursor
    if c.head? = some ']' then return ([], c.next)
    let (d, c) ← flowNode fuel c
    let c := (← skipAll true false c).cursor
    let (d, c) ←
      if c.head? = some ':' then do
        let key ← keyText d
        let (v, c) ← flowValue fuel c.next
        pure (Document.map [(key, v)], c)
      else pure (d, c)
    if c.head? = some ',' then
      let (more, c) ← flowItems fuel c.next
      return (d :: more, c)
    else if c.head? = some ']' then return ([d], c.next)
    else none

/-- Reads the members of a map after its brace or a comma. -/
def flowMembers : (fuel : Nat) → Cursor → Option (List (String × Document) × Cursor)
  | 0, _ => none
  | fuel + 1, c => do
    let c := (← skipAll true false c).cursor
    if c.head? = some '\x7d' then return ([], c.next)
    let (k, c) ← flowNode fuel c
    let key ← keyText k
    let c := (← skipAll true false c).cursor
    let (v, c) ← if c.head? = some ':' then flowValue fuel c.next else pure (absent, c)
    if c.head? = some ',' then
      let (more, c) ← flowMembers fuel c.next
      return ((key, v) :: more, c)
    else if c.head? = some '\x7d' then return ([(key, v)], c.next)
    else none

/-- Reads the value of a member after its colon, and the blanks after it. -/
def flowValue : (fuel : Nat) → Cursor → Option (Document × Cursor)
  | 0, _ => none
  | fuel + 1, c => do
    let c := (← skipAll true false c).cursor
    if c.head?.any fun ch => ch = ',' || ch = ']' || ch = '\x7d' then return (absent, c)
    let (d, c) ← flowNode fuel c
    return (d, (← skipAll true false c).cursor)

end

/-- A value in a block, or the key of a map that starts here. -/
inductive Start where
  | key (text : String) (after : Cursor)
  | value (d : Document) (after : Cursor)

/-- Reads a scalar or a value in brackets; continued lines are indented by at least `least`. -/
def start? (least : Nat) (c : Cursor) : Option Start :=
  match c.head? with
  | some '[' | some '\x7b' => (flowNode (c.rest.length + 1) c).map fun (d, after) => .value d after
  | some '"' | some '\'' => do
    let (s, after) ← quoted? c
    let colon := after.rest.dropWhile isBlank
    if endsKey false colon then
      return .key (String.ofList s) (after.forward (after.rest.length - colon.length + 1))
    else return .value (.str (String.ofList s)) after
  | _ =>
    if !startsPlain false c.rest then none
    else
      let (text, after) := plainLine false c
      if endsKey false after.rest then some (.key (String.ofList text) after.next)
      else (plainLines false least (c.rest.length + 1) c).map fun (s, after) =>
        .value (plain s) after

/-- Whether an item of a list starts here. -/
def startsItem (cs : List Char) : Bool := cs.head? = some '-' && endsWord cs.tail

/-- After a value, the rest of its line is blank. -/
def lineDone (c : Cursor) : Option Reached := do
  let reached ← skipAll false false c
  if reached.fresh || reached.cursor.rest.isEmpty then some reached else none

mutual

/-- Reads a value in a block; `inline` when it follows a key on the same line. The place after it
is the start of the next line with something on it. -/
def blockNode : (fuel : Nat) → (inline : Bool) → (least : Nat) → Cursor →
    Option (Document × Cursor)
  | 0, _, _, _ => none
  | fuel + 1, inline, least, c => do
    if startsItem c.rest then
      if inline then none
      let (ds, after) ← blockItems fuel c.column c
      return (.list ds, after)
    match ← start? least c with
    | .value d after => return (d, (← lineDone after).cursor)
    | .key _ _ =>
      if inline then none
      let (ms, after) ← blockMembers fuel c.column c
      return (.map ms, after)

/-- Reads the items of a list whose marks stand in one column. -/
def blockItems : (fuel : Nat) → (column : Nat) → Cursor → Option (List Document × Cursor)
  | 0, _, _ => none
  | fuel + 1, column, c => do
    if c.rest.isEmpty || c.column < column || (c.column = column && !startsItem c.rest) then
      return ([], c)
    if c.column ≠ column then none
    let reached ← skipAll false false c.next
    let inner := reached.cursor
    let (d, after) ←
      if inner.rest.isEmpty || (reached.fresh && inner.column ≤ column) then pure (absent, inner)
      else blockNode fuel false (column + 1) inner
    let (more, after) ← blockItems fuel column after
    return (d :: more, after)

/-- Reads the members of a map whose keys stand in one column. -/
def blockMembers : (fuel : Nat) → (column : Nat) → Cursor →
    Option (List (String × Document) × Cursor)
  | 0, _, _ => none
  | fuel + 1, column, c => do
    if c.rest.isEmpty || c.column < column then return ([], c)
    if c.column ≠ column then none
    match ← start? (column + 1) c with
    | .value _ _ => none
    | .key key after =>
      let reached ← skipAll false false after
      let inner := reached.cursor
      let (v, after) ←
        if inner.rest.isEmpty then pure (absent, inner)
        else if !reached.fresh then blockNode fuel true (column + 1) inner
        else if column < inner.column || (inner.column = column && startsItem inner.rest) then
          blockNode fuel false (column + 1) inner
        else pure (absent, inner)
      let (more, after) ← blockMembers fuel column after
      return ((key, v) :: more, after)

end

/-- Whether a line marks the start of a document. -/
def isDocumentMark (line : List Char) : Bool :=
  line.take 3 = ['-', '-', '-'] && endsWord (line.drop 3)

/-- Whether a line marks the end of a document. -/
def isEndMark (line : List Char) : Bool :=
  line.take 3 = ['.', '.', '.'] && endsWord (line.drop 3)

/-- Whether a line holds nothing but blanks or a comment. -/
def isEmptyLine (line : List Char) : Bool :=
  (line.dropWhile isBlank).head?.all (· = '#')

/-- The lines of the one document of a text, without its marks. -/
def oneDocument? (lines : List (List Char)) : Option (List (List Char)) :=
  let body := lines.dropWhile isEmptyLine
  let body := match body with
    | line :: rest => if isDocumentMark line then line.drop 3 :: rest else body
    | [] => []
  let inside := body.takeWhile fun line => !isEndMark line && !isDocumentMark line
  let after := body.drop inside.length
  if after.all fun line => isEndMark line || isEmptyLine line then some inside else none

/-- Drops the carriage return at the end of a line. -/
def dropReturn (line : List Char) : List Char :=
  if line.getLast? = some '\r' then line.dropLast else line

/-- The document of a YAML text. -/
def read? (cs : List Char) : Option Document := do
  let cs := if cs.head? = some '\ufeff' then cs.tail else cs
  let lines ← oneDocument? ((Text.splitOn '\n' cs).map dropReturn)
  let text := Text.join '\n' lines
  let reached ← skipAll false true ⟨0, text⟩
  if reached.cursor.rest.isEmpty then return absent
  let (d, after) ← blockNode (2 * text.length + 2) false 0 reached.cursor
  if after.rest.isEmpty then return d else none

end PriceOracle.Yaml
