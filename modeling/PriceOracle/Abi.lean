import PriceOracle.Round
import PriceOracle.Crypto.Keccak

/-!
# Calls of contracts

The bytes of a call: four that select the method, then one word of 32 bytes for each argument. The
output of a method is a list of such words.
-/

namespace PriceOracle.Abi

/-- The bytes that select a method by its signature. -/
def selector (signature : String) : List UInt8 := (Keccak.digestText signature).take 4

/-- A number as a word of 32 big-endian bytes. -/
def word (n : Nat) : List UInt8 := (List.range 32).map fun i => UInt8.ofNat (n / 256 ^ (31 - i))

/-- A call of a method. -/
def call (signature : String) (arguments : List Nat) : List UInt8 :=
  selector signature ++ arguments.flatMap word

/-- The first words of an output; none when it is too short. -/
def words? : (count : Nat) → List UInt8 → Option (List Nat)
  | 0, _ => some []
  | count + 1, bytes =>
    if bytes.length < 32 then none
    else (words? count (bytes.drop 32)).map ((Uint256.ofBytes (bytes.take 32)).toNat :: ·)

/-- The bound of the round numbers that a feed reports. -/
def roundBound : Nat := 2 ^ 80

/-- A round as a feed reports it: numbers of up to 80 bits and times of up to 256. -/
structure RoundWords where
  round : Nat
  answer : Uint256
  startedAt : Nat
  updatedAt : Nat
  answeredIn : Nat

/-- The round of an output; none when it is not one. -/
def round? (bytes : List UInt8) : Option RoundWords := do
  match ← words? 5 bytes with
  | [round, answer, startedAt, updatedAt, answeredIn] =>
    if round < roundBound ∧ answeredIn < roundBound then
      return ⟨round, ← Uint256.ofNat? answer, startedAt, updatedAt, answeredIn⟩
    else none
  | _ => none

/-- A time in 64 bits, or the largest one. -/
def seconds (n : Nat) : UInt64 := UInt64.ofNat (min n (2 ^ 64 - 1))

/-- The call that asks for the latest round. -/
def latestRoundCall : List UInt8 := call "latestRoundData()" []

/-- The call that asks for a round. -/
def roundCall (round : RoundId) : List UInt8 := call "getRoundData(uint80)" [round.toNat]

/-- The call that publishes an answer. -/
def updateCall (answer : Uint256) : List UInt8 := call "updatePrice(uint256)" [answer.toNat]

end PriceOracle.Abi
