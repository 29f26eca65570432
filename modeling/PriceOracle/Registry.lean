import PriceOracle.Dict
import PriceOracle.Storage
import PriceOracle.Oracle.Codec

/-!
# The registry of oracles

A `Table` holds the registered oracles in the order of their registration, each with its
bookkeeping. Every change is written to storage before it shows in the table, so that
`Registry.load` rebuilds from storage what callers saw last.

A row lies under `oracles:<id>` and the order under `registry:index`. No two oracles publish to
the same feed.
-/

namespace PriceOracle

/-- Why the registry refuses. -/
inductive RegistryError where
  | duplicateId (id : OracleId)
  | invalidThreshold (id : OracleId)
  | invalidDecimals (id : OracleId) (decimals : UInt32)
  | notFound (id : OracleId)
  | destinationInUse (key : FeedKey) (owner : OracleId)
  | storage (e : StorageError)
  deriving DecidableEq

/-- The wording of a refusal. -/
def RegistryError.message : RegistryError → String
  | duplicateId id => s!"Oracle {id} is already registered"
  | invalidThreshold id => s!"Oracle {id} has an invalid threshold; it must be at least 1"
  | invalidDecimals id decimals =>
    s!"Oracle {id} has {decimals} feed decimals; at most {Destination.maxDecimals} are supported"
  | notFound id => s!"Oracle {id} not found"
  | destinationInUse key owner =>
    s!"Destination {key.text} is already published to by oracle {owner}"
  | storage e => s!"Storage error: {e.message}"

/-- The registered oracles: their order, and the row of each. -/
structure Table where
  order : List OracleId
  rows : Dict OracleId Row

namespace Table

/-- A table without oracles. -/
def empty : Table := ⟨[], []⟩

/-- The row of an oracle. -/
def row? (t : Table) (id : OracleId) : Option Row := t.rows.get? id

/-- The rows in the order of registration. -/
def inOrder (t : Table) : List Row := t.order.filterMap t.row?

/-- Another oracle that publishes to the feed of a configuration. -/
def owner? (t : Table) (c : OracleConfig) : Option OracleId :=
  (t.rows.find? fun entry =>
    entry.2.config.id != c.id && entry.2.config.destination.key == c.destination.key).map
      (·.2.config.id)

/-- Puts a row in the place of the former one. -/
def setRow (t : Table) (id : OracleId) (row : Row) : Table :=
  { t with rows := t.rows.set id row }

/-- Adds a row at the end. -/
def append (t : Table) (id : OracleId) (row : Row) : Table :=
  ⟨t.order ++ [id], t.rows.set id row⟩

/-- Takes an oracle out. -/
def remove (t : Table) (id : OracleId) : Table :=
  ⟨t.order.filter (· != id), t.rows.unset id⟩

end Table

namespace Registry

/-- The namespace of the rows. -/
def rowSpace : String := "oracles"

/-- The namespace of the order. -/
def indexSpace : String := "registry"

/-- The id of the order. -/
def indexId : String := "index"

/-- A change of the registry, written through to storage. -/
abbrev Change (α : Type) := Attempt Storage.interface RegistryError α

/-- A use of storage within a change. -/
def stored (use : Storage.Access α) : Change α := ExceptT.adapt .storage use

/-- Writes a row down. -/
def persist (row : Row) : Change Unit := stored (Storage.store rowSpace row.config.id row.toJson)

/-- Writes the order down. -/
def persistOrder (order : List OracleId) : Change Unit :=
  stored (Storage.store indexSpace indexId (.arr (order.map .str)))

/-- Loads the rows of an index behind a table; an id without a row is dropped. -/
def loadRows : List OracleId → Table → Change Table
  | [], t => pure t
  | id :: rest, t => do
    match ← stored (Storage.retrieve? rowSpace id Row.decode) with
    | some row => loadRows rest (t.append id row)
    | none => loadRows rest t

/-- The order as it was written down; empty storage has an empty one. -/
def loadOrder : Change (List OracleId) := do
  let order ← stored (Storage.retrieve? indexSpace indexId (Document.asList Document.asString))
  return order.getD []

/-- Rebuilds the table from storage. -/
def load : Change Table := do loadRows (← loadOrder) .empty

/-- Checks what a configuration says about itself. -/
def check (c : OracleConfig) : Except RegistryError Unit :=
  if c.threshold = 0 then .error (.invalidThreshold c.id)
  else if Destination.maxDecimals < c.destination.decimals then
    .error (.invalidDecimals c.id c.destination.decimals)
  else .ok ()

/-- Checks that no other oracle publishes to the feed of a configuration. -/
def checkOwner (t : Table) (c : OracleConfig) : Except RegistryError Unit :=
  match t.owner? c with
  | some owner => .error (.destinationInUse c.destination.key owner)
  | none => .ok ()

/-- The row of an oracle that has to be there. -/
def rowOf (t : Table) (id : OracleId) : Except RegistryError Row :=
  match t.row? id with
  | some row => .ok row
  | none => .error (.notFound id)

/-- Checks that an id is free. -/
def checkFree (t : Table) (id : OracleId) : Except RegistryError Unit :=
  if (t.row? id).isSome then .error (.duplicateId id) else .ok ()

/-- Adds an oracle with initial bookkeeping at the end. -/
def register (c : OracleConfig) (t : Table) : Change Table := do
  Attempt.ofExcept (check c)
  Attempt.ofExcept (checkFree t c.id)
  Attempt.ofExcept (checkOwner t c)
  let row : Row := ⟨c, .initial⟩
  persist row
  persistOrder (t.order ++ [c.id])
  return t.append c.id row

/-- The bookkeeping of an oracle whose configuration is replaced: it starts over when the
destination changes. -/
def carriedOver (current : Row) (c : OracleConfig) : Bookkeeping :=
  if current.config.destination = c.destination then current.bookkeeping else .initial

/-- Replaces the configuration of an oracle. -/
def update (c : OracleConfig) (t : Table) : Change Table := do
  Attempt.ofExcept (check c)
  let current ← Attempt.ofExcept (rowOf t c.id)
  Attempt.ofExcept (checkOwner t c)
  let row : Row := ⟨c, carriedOver current c⟩
  persist row
  return t.setRow c.id row

/-- Takes an oracle out: first from the order, then its row. -/
def remove (id : OracleId) (t : Table) : Change Table := do
  let _ ← Attempt.ofExcept (rowOf t id)
  persistOrder (t.order.filter (· != id))
  stored (Storage.remove rowSpace id)
  return t.remove id

/-- Changes the bookkeeping of an oracle, and tells what it is then. Bookkeeping that stays the
same is not written. -/
def revise (id : OracleId) (change : Bookkeeping → Bookkeeping) (t : Table) :
    Change (Table × Bookkeeping) := do
  let current ← Attempt.ofExcept (rowOf t id)
  let row : Row := { current with bookkeeping := change current.bookkeeping }
  if row.bookkeeping == current.bookkeeping then return (t, row.bookkeeping)
  persist row
  return (t.setRow id row, row.bookkeeping)

/-! ## Requests -/

/-- What the registry can be asked for, each in one step. -/
inductive Request where
  | row (id : OracleId)
  | rows
  | ids
  | holds (id : OracleId)
  | register (config : OracleConfig)
  | update (config : OracleConfig)
  | remove (id : OracleId)
  | revise (id : OracleId) (change : Bookkeeping → Bookkeeping)

/-- The answer to each request. -/
def Request.Reply : Request → Type
  | row _ => Except RegistryError Row
  | rows => List Row
  | ids => List OracleId
  | holds _ => Bool
  | register _ => Except RegistryError Unit
  | update _ => Except RegistryError Unit
  | remove _ => Except RegistryError Unit
  | revise _ _ => Except RegistryError Bookkeeping

/-- Takes the table that a change leaves; a change that fails leaves the table as it was. -/
def settle (t : Table) (change : Change (Table × α)) :
    Program Storage.interface (Except RegistryError α × Table) := do
  match ← change.run with
  | .ok (t', a) => return (.ok a, t')
  | .error e => return (.error e, t)

/-- Answers a request on a table. -/
def answer : (r : Request) → Table → Program Storage.interface (r.Reply × Table)
  | .row id, t => pure (rowOf t id, t)
  | .rows, t => pure (t.inOrder, t)
  | .ids, t => pure (t.order, t)
  | .holds id, t => pure ((t.row? id).isSome, t)
  | .register c, t => settle t ((·, ()) <$> register c t)
  | .update c, t => settle t ((·, ()) <$> update c t)
  | .remove id, t => settle t ((·, ()) <$> remove id t)
  | .revise id change, t => settle t (revise id change t)

end Registry

end PriceOracle
