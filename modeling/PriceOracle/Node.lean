import PriceOracle.Crypto.Secp256k1
import PriceOracle.Duration
import PriceOracle.Oracle
import PriceOracle.Program
import PriceOracle.Url

/-!
# Nodes

What can be asked of the node behind an endpoint, and `Checked`: uses of nodes that remember which
endpoints were found to serve the chain that they are configured for. Nothing but its chain id is
asked of a node before that.
-/

namespace PriceOracle

namespace Node

/-- The receipt of a transaction as a node has it; one that is not in a block yet has no number. -/
structure MinedAt where
  hash : TxHash
  block : Option UInt64
  success : Bool

/-- What can be asked of a node, and of the machine that asks. -/
inductive Request where
  | chainId (url : String)
  /-- Calls a contract without a transaction. -/
  | call (url : String) (target : Address) (data : List UInt8)
  /-- Sends a signed transaction. -/
  | send (url : String) (chainId : UInt64) (signer : Option Secp256k1.PrivateKey)
      (target : Address) (data : List UInt8)
  | receipt (url : String) (hash : TxHash)
  | transaction (url : String) (hash : TxHash)
  | blockNumber (url : String)
  | elapsed
  | sleep (d : Duration)
  | read (path : String)

/-- The answer to each request; a failed one carries the text of the node or the connection. -/
def Request.Reply : Request → Type
  | chainId _ => Except String UInt64
  | call _ _ _ => Except String (List UInt8)
  | send _ _ _ _ _ => Except String TxHash
  | receipt _ _ => Except String (Option MinedAt)
  | transaction _ _ => Except String Bool
  | blockNumber _ => Except String UInt64
  | elapsed => Duration
  | sleep _ => Unit
  | read _ => Option ByteArray

/-- The interface to nodes. -/
def interface : Interface := ⟨Request, Request.Reply⟩

/-- A use of nodes that remembers something for each endpoint that was checked. -/
abbrev Checked (σ ε α : Type) := ExceptT ε (StateT σ (Program interface)) α

variable {σ ε α : Type}

/-- Makes a request. -/
def ask (r : Request) : Checked σ ε r.Reply :=
  ExceptT.lift (StateT.lift (Program.request (I := interface) r))

/-- Goes on with a reply that is not a failure. -/
def expect (refusal : String → ε) : Except String α → Checked σ ε α
  | .ok a => pure a
  | .error reason => throw (refusal reason)

/-- The wording of an endpoint that is no URL. -/
def badUrl (url : String) : String := s!"Invalid RPC URL '{url}': not an absolute URL"

/-- The wording of an endpoint that serves another chain. -/
def wrongChain (expected actual : UInt64) : String :=
  s!"Chain ID mismatch: expected {expected}, got {actual}"

/-- Checks that an endpoint serves the chain that it is configured for. -/
def checkChain (e : Endpoint) (failed mismatch : String → ε) : Checked σ ε Unit := do
  let actual ← expect (fun reason => failed s!"Failed to get chain ID: {reason}")
    (← ask (.chainId e.url))
  if actual ≠ e.chainId then throw (mismatch (wrongChain e.chainId actual))

/-- Runs a use of nodes from what is remembered. -/
def run (use : Checked σ ε α) (remembered : σ) : Program interface (Except ε α × σ) :=
  use.run.run remembered

end Node

end PriceOracle
