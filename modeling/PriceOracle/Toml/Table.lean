import PriceOracle.Document

/-!
# TOML: tables under construction

Headers and entries build one table piece by piece. A `Node` remembers how it came about, for a
table may be defined only once: by its own header, or by entries with dotted keys.
-/

namespace PriceOracle.Toml

/-- A part of the table under construction. -/
inductive Node where
  | value (d : Document)
  /-- `isImplicit`: no header of its own so far; `isDotted`: made by the key of an entry. -/
  | table (isImplicit isDotted : Bool) (members : List (String × Node))
  /-- An array of tables, the last one first. -/
  | tables (latest : Node) (earlier : List Node)
  deriving Inhabited

namespace Node

/-- A table that nothing was put into. -/
def empty : Node := .table false false []

/-- Sets a member, in place where there is one. -/
def setMember (key : String) (node : Node) : List (String × Node) → List (String × Node)
  | [] => [(key, node)]
  | (k, n) :: rest => if k = key then (key, node) :: rest else (k, n) :: setMember key node rest

/-- Changes the table at a path. Tables that are missing on the way are made; `dotted` tells
whether the path stands in the key of an entry, which may not enter a table with a header. -/
def alter (dotted : Bool) (change : Node → Option Node) : List String → Node → Option Node
  | [], node => change node
  | key :: rest, .table isImplicit isDotted members =>
    let put (n : Node) := Node.table isImplicit isDotted (setMember key n members)
    match members.lookup key with
    | none => (alter dotted change rest (.table true dotted [])).map put
    | some (.value _) => none
    | some (.tables latest earlier) =>
      (alter dotted change rest latest).map fun n => put (.tables n earlier)
    | some (.table i d ms) =>
      if dotted && !i then none else (alter dotted change rest (.table i d ms)).map put
  | _ :: _, _ => none

/-- Puts an entry into the table that its key leads to. -/
def insert (keys : List String) (d : Document) (node : Node) : Option Node := do
  let last ← keys.getLast?
  let inner := keys.dropLast
  let put : Node → Option Node
    | .table isImplicit isDotted members =>
      if isDotted == inner.isEmpty || (members.lookup last).isSome then none
      else some (.table isImplicit isDotted (setMember last (.value d) members))
    | _ => none
  alter true put inner node

/-- Opens the table of a header. -/
def openTable (keys : List String) (node : Node) : Option Node := do
  let last ← keys.getLast?
  let start : Node → Option Node
    | .table isImplicit isDotted members =>
      match members.lookup last with
      | none => some (.table isImplicit isDotted (setMember last empty members))
      | some (.table true false ms) =>
        some (.table isImplicit isDotted (setMember last (.table false false ms) members))
      | _ => none
    | _ => none
  alter false start keys.dropLast node

/-- Opens one more table of an array of tables. -/
def openItem (keys : List String) (node : Node) : Option Node := do
  let last ← keys.getLast?
  let start : Node → Option Node
    | .table isImplicit isDotted members =>
      match members.lookup last with
      | none => some (.table isImplicit isDotted (setMember last (.tables empty []) members))
      | some (.tables latest earlier) =>
        some (.table isImplicit isDotted
          (setMember last (.tables empty (latest :: earlier)) members))
      | _ => none
    | _ => none
  alter false start keys.dropLast node

mutual

/-- The document of a node. -/
def toDocument : Node → Document
  | .value d => d
  | .table _ _ members => .map (toMembers members)
  | .tables latest earlier => .seq ((toDocument latest :: toItems earlier).reverse)

/-- The documents of the members of a table. -/
def toMembers : List (String × Node) → List (String × Document)
  | [] => []
  | (key, node) :: rest => (key, toDocument node) :: toMembers rest

/-- The documents of the items of an array of tables. -/
def toItems : List Node → List Document
  | [] => []
  | node :: rest => toDocument node :: toItems rest

end

end Node

end PriceOracle.Toml
