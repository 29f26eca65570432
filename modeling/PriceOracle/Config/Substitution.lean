import PriceOracle.Config.Error

/-!
# Environment references

A configuration text may refer to a variable of the environment as `${NAME}`. The references are
taken from the text as written, from left to right; for each of them every occurrence of that
reference is replaced in the text as it is by then.
-/

namespace PriceOracle.Config

/-- A character that starts the name of a variable. -/
def isNameStart (c : Char) : Bool := c.isAlpha || c == '_'

/-- A character of the name of a variable. -/
def isNamePart (c : Char) : Bool := c.isAlphanum || c == '_'

/-- The name in a reference at the start of a text. -/
def referenceAt? : List Char → Option (List Char)
  | '$' :: '{' :: rest =>
    let name := rest.takeWhile isNamePart
    if name.head?.any isNameStart && (rest.dropWhile isNamePart).head? == some '\x7d' then
      some name
    else none
  | _ => none

/-- The names referred to in a text, in order. References do not overlap. -/
def references : List Char → List (List Char)
  | [] => []
  | c :: rest =>
    match referenceAt? (c :: rest) with
    | some name => name :: references rest
    | none => references rest

/-- The written form of a reference. -/
def reference (name : List Char) : List Char := '$' :: '{' :: name ++ ['\x7d']

/-- Replaces every occurrence of a pattern, from left to right; `skip` characters of the current
occurrence are still to be passed over. -/
def replaceFrom (pattern value : List Char) : (skip : Nat) → List Char → List Char
  | _, [] => []
  | skip + 1, _ :: rest => replaceFrom pattern value skip rest
  | 0, c :: rest =>
    if pattern.isPrefixOf (c :: rest) then
      value ++ replaceFrom pattern value (pattern.length - 1) rest
    else c :: replaceFrom pattern value 0 rest

/-- Replaces every occurrence of a pattern that is not empty. -/
def replace (pattern value text : List Char) : List Char := replaceFrom pattern value 0 text

/-- Replaces the references to some names one after the other. -/
def substituteNames (lookup : String → Option String) :
    List (List Char) → List Char → Except ConfigError (List Char)
  | [], text => .ok text
  | name :: rest, text =>
    match lookup (String.ofList name) with
    | none => .error (.unsetVariable (String.ofList name))
    | some value => substituteNames lookup rest (replace (reference name) value.toList text)

/-- Replaces the references of a text by the values of their variables. -/
def substitute (lookup : String → Option String) (text : List Char) :
    Except ConfigError (List Char) :=
  substituteNames lookup (references text) text

end PriceOracle.Config
