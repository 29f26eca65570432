import PriceOracle.Binary64

/-!
# JSON values and their compact text

* `Json`: a JSON value; the members of an object stay in order.
* `Json.member?`: the member of a name, the last one where a name is repeated.
* `Json.render`: the text of a value without blanks, with the shortest escapes.
-/

namespace PriceOracle

/-- A JSON value. Integers that fit 64 bits are kept apart from other numbers. -/
inductive Json where
  | null
  | bool (b : Bool)
  | int (n : Int)
  | float (x : Binary64)
  | str (s : String)
  | arr (items : List Json)
  | obj (members : List (String × Json))
  deriving Inhabited

namespace Json

/-- The last member of a name. -/
def lastMember? (name : String) : List (String × Json) → Option Json
  | [] => none
  | (key, value) :: rest =>
    match lastMember? name rest with
    | some later => some later
    | none => if key = name then some value else none

/-- The member of an object, none for other values. -/
def member? (name : String) : Json → Option Json
  | .obj members => lastMember? name members
  | _ => none

/-- A natural number as a JSON value. -/
def nat (n : Nat) : Json := .int n

/-- The value of an option, `null` when there is none. -/
def ofOption (write : α → Json) : Option α → Json
  | none => .null
  | some a => write a

/-- The characters that are escaped by one letter, each with its letter. -/
def shortEscapes : List (Char × Char) :=
  [('"', '"'), ('\\', '\\'), ('\x08', 'b'), ('\x0c', 'f'), ('\n', 'n'), ('\r', 'r'), ('\t', 't')]

/-- The escaped form of one character of a string. -/
def escape (c : Char) : List Char :=
  match shortEscapes.lookup c with
  | some letter => ['\\', letter]
  | none =>
    if c.toNat < 32 then
      ['\\', 'u', '0', '0', Nat.digitChar (c.toNat / 16), Nat.digitChar (c.toNat % 16)]
    else [c]

/-- A string between quotes. -/
def quote (s : String) : List Char := '"' :: s.toList.flatMap escape ++ ['"']

/-- The text of an integer. -/
def intText (n : Int) : List Char :=
  (if n < 0 then ['-'] else []) ++ Digits.ofNat n.natAbs

mutual

/-- The compact text of a value. -/
def render : Json → List Char
  | .null => ['n', 'u', 'l', 'l']
  | .bool true => ['t', 'r', 'u', 'e']
  | .bool false => ['f', 'a', 'l', 's', 'e']
  | .int n => intText n
  | .float x => x.jsonText
  | .str s => quote s
  | .arr items => '[' :: renderItems items ++ [']']
  | .obj members => '{' :: renderMembers members ++ ['}']

/-- The items of an array, separated by commas. -/
def renderItems : List Json → List Char
  | [] => []
  | [item] => render item
  | item :: rest => render item ++ ',' :: renderItems rest

/-- The members of an object, separated by commas. -/
def renderMembers : List (String × Json) → List Char
  | [] => []
  | [(key, value)] => quote key ++ ':' :: render value
  | (key, value) :: rest => quote key ++ ':' :: render value ++ ',' :: renderMembers rest

end

/-- The compact text of a value as a string. -/
def text (j : Json) : String := String.ofList j.render

mutual

/-- The value with repeated member names resolved to the last one. -/
def distinct : Json → Json
  | .arr items => .arr (distinctItems items)
  | .obj members => .obj (distinctMembers members)
  | j => j

/-- `distinct` on the items of an array. -/
def distinctItems : List Json → List Json
  | [] => []
  | item :: rest => distinct item :: distinctItems rest

/-- `distinct` on the members of an object: a member followed by one of its name is dropped. -/
def distinctMembers : List (String × Json) → List (String × Json)
  | [] => []
  | (key, value) :: rest =>
    let rest' := distinctMembers rest
    if rest'.any (·.1 == key) then rest' else (key, distinct value) :: rest'

end

end Json

end PriceOracle
