import PriceOracle.Crypto.Keccak

/-!
# Authorization

Who may manage oracles: everyone, or whoever shows the owner's token. Only the digest of that
token is kept.
-/

namespace PriceOracle

/-- Who may manage oracles. -/
inductive Authorization where
  | anyone
  | owner (digest : List UInt8)

namespace Authorization

/-- The owner with a token. -/
def ofToken (token : String) : Authorization := .owner (Keccak.digestText token)

/-- The owner with a token, or everyone where there is none. -/
def ofToken? : Option String → Authorization
  | some token => ofToken token
  | none => .anyone

/-- Whether a caller with a token, or without one, may manage oracles. -/
def admits : Authorization → Option String → Bool
  | anyone, _ => true
  | owner _, none => false
  | owner digest, some token => Keccak.digestText token == digest

end Authorization

end PriceOracle
