import PriceOracle.Node
import PriceOracle.Source.Error

/-!
# Reading contracts through nodes

A node is remembered by its chain and its URL.
-/

namespace PriceOracle.Node.Contract

/-- The endpoints that were found to serve their chains. -/
abbrev Known := List (UInt64 × String)

/-- A read that remembers the endpoints it checked. -/
abbrev Use (α : Type) := Checked Known SourceError α

/-- Makes sure that an endpoint serves its chain. -/
def connect (e : Endpoint) : Use Unit := do
  if (← get).contains (e.chainId, e.url) then return
  if !Url.isWellFormed e.url then throw (.invalidSource (badUrl e.url))
  checkChain e .transport .invalidSource
  modify ((e.chainId, e.url) :: ·)

/-- The output of a call. -/
def call (e : Endpoint) (target : Address) (data : List UInt8) : Use (List UInt8) := do
  connect e
  expect (fun reason => .transport s!"eth_call failed: {reason}") (← ask (.call e.url target data))

end PriceOracle.Node.Contract
