import PriceOracle.Account
import PriceOracle.Engine
import PriceOracle.Log
import PriceOracle.Storage.File

/-!
# Building a service

`assemble` makes a service out of a configuration: it takes the configured storage into use, loads
the registry, finds the publishing key, and checks the settings of sources and feeds, in this
order. The first thing that fails ends it.

Which backends there are is given by `Parts`; a part that is missing is reported when its turn
comes.
-/

namespace PriceOracle

/-- What services can be built from. -/
structure Parts (σ : Type) where
  /-- How storage is made, by the name of its backend and from its settings. -/
  storage : String → Option (Setting → Except StorageError σ)
  /-- Whether sources on the web can be read. -/
  web : Bool
  /-- Whether contracts can be read. -/
  contracts : Bool
  /-- Whether feeds can be published to. -/
  feeds : Bool
  /-- Who may manage oracles, whatever the configuration says. -/
  authorization : Option Authorization

/-- The storage that a service can run on. -/
inductive StorageChoice where
  | memory
  | directory (path : String)

/-- The backends that the program itself has. -/
def StorageChoice.named? : String → Option (Setting → Except StorageError StorageChoice)
  | "file" => some fun s => directory <$> Storage.File.pathOf s
  | "memory" => some fun _ => .ok memory
  | _ => none

/-- All parts of the program itself. -/
def Parts.standard : Parts StorageChoice := ⟨StorageChoice.named?, true, true, true, none⟩

namespace Assembly

variable {σ : Type}

/-- What building a service asks for. -/
inductive Request (σ : Type) where
  | note (line : LogLine)
  | read (path : String)
  /-- Takes storage into use. -/
  | mount (storage : σ)
  /-- Asks the storage in use. -/
  | storage (r : Storage.Request)

/-- The answer to each request. -/
def Request.Reply : Request σ → Type
  | note _ => Unit
  | read _ => Option ByteArray
  | mount _ => Unit
  | storage r => r.Reply

/-- The interface to what a service is built on. -/
def interface (σ : Type) : Interface := ⟨Request σ, Request.Reply⟩

/-- A step of building. -/
abbrev Build (σ α : Type) := Attempt (interface σ) EngineError α

/-- Makes a request. -/
def ask (r : Request σ) : Build σ r.Reply :=
  ExceptT.lift (Program.request (I := interface σ) r)

/-- Tells the operator something. -/
def note (level : LogLevel) (text : String) : Build σ Unit := ask (.note ⟨level, text⟩)

/-- Goes on with a value whose absence the configuration is to blame for. -/
def configured (message : ε → String) : Except ε α → Build σ α
  | .ok a => pure a
  | .error e => throw (.configuration (message e))

/-- A part that has to be there. -/
def require (present : Bool) (name : String) : Build σ Unit :=
  if present then pure () else throw (.configuration s!"{name} factory not provided")

/-- Takes the configured storage into use. -/
def mount (parts : Parts σ) (b : BackendConfig) : Build σ Unit := do
  match parts.storage b.backend with
  | none => throw (.configuration s!"Unknown storage backend '{b.backend}'")
  | some make => ask (.mount (← configured StorageError.message (make b.settings)))

/-- A use of the storage in use. -/
def onStorage (change : Registry.Change α) : Build σ α :=
  ExceptT.adapt .registry (ExceptT.mk
    (Program.through (I := Storage.interface) (J := interface σ)
      (fun r => Program.request (I := interface σ) (.storage r)) change.run))

/-- Tells the operator about ids without a row. -/
def noteDropped (table : Table) : List OracleId → Build σ Unit
  | [] => pure ()
  | id :: rest => do
    if (table.row? id).isNone then
      note .warn s!"Indexed oracle has no stored row, dropping it oracle_id={id}"
    noteDropped table rest

/-- Loads the registry. -/
def loadTable : Build σ Table := do
  let order ← onStorage Registry.loadOrder
  let table ← onStorage (Registry.loadRows order .empty)
  noteDropped table order
  note .info s!"Loaded oracle registry oracles={table.order.length}"
  return table

/-- The content of the file that the settings of an account name, if they name one. -/
def keyContent (s : Setting) : Build σ (Option ByteArray) :=
  match Account.keyFile? s with
  | some path => ask (.read path)
  | none => pure none

/-- The publishing key, where one is configured. -/
def identity : Option BackendConfig → Build σ (Option Secp256k1.PrivateKey)
  | none => do
    note .warn "No default account configured; destinations must name a credential_path"
    return none
  | some b => do
    if b.backend ≠ Account.backendName then
      throw (.configuration s!"Unknown account backend '{b.backend}'")
    let content ← keyContent b.settings
    let key ← configured AccountError.message (Account.ofSettings (fun _ => content) b.settings)
    note .info s!"Loaded local publisher wallet address={key.address}"
    note .info s!"Loaded publishing account address={key.address}"
    return some key

/-- Builds a service and the table of its oracles. -/
def assemble (parts : Parts σ) (c : Config) : Build σ (Engine × Table) := do
  mount parts c.storage
  let table ← loadTable
  let account ← identity c.account
  require parts.web "HTTP"
  configured SourceError.message (Source.check c.fetcher)
  require parts.contracts "EVM reader"
  require parts.feeds "Price feed"
  configured PublishError.message (Feed.check c.publisher.settings)
  let authorization := parts.authorization.getD (Engine.authorizationOf c)
  return (⟨c, authorization, account⟩, table)

end Assembly

end PriceOracle
