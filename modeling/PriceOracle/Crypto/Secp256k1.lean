import PriceOracle.Address
import PriceOracle.Power

/-!
# The secp256k1 curve

Public keys and account addresses of private keys. Points are affine; addition and doubling
follow the chord-and-tangent rule of `y² = x³ + 7` over the field of `fieldPrime` elements.
-/

namespace PriceOracle.Secp256k1

/-- The number of elements of the field. -/
def fieldPrime : Nat := 0xFFFFFFFFFFFFFFFFFFFFFFFFFFFFFFFFFFFFFFFFFFFFFFFFFFFFFFFEFFFFFC2F

/-- The number of points of the group; private keys lie strictly between zero and it. -/
def order : Nat := 0xFFFFFFFFFFFFFFFFFFFFFFFFFFFFFFFEBAAEDCE6AF48A03BBFD25E8CD0364141

/-- A point of the curve. -/
inductive Point where
  | infinity
  | affine (x y : Nat)
  deriving DecidableEq

/-- The generator of the group. -/
def generator : Point :=
  .affine 0x79BE667EF9DCBBAC55A06295CE870B07029BFCDB2DCE28D959F2815B16F81798
    0x483ADA7726A3C4655DA4FBFC0E1108A8FD17B448A68554199C47D08FFB10D4B8

/-- Subtraction in the field. -/
def sub (a b : Nat) : Nat := (a + fieldPrime - b % fieldPrime) % fieldPrime

/-- `base ^ n` in the field, by squaring, over `bits` bits of the exponent. -/
def powMod (base : Nat) : (bits n : Nat) → Nat
  | 0, _ => 1
  | bits + 1, n =>
    let half := powMod base bits (n / 2)
    let square := half * half % fieldPrime
    if n % 2 = 1 then square * base % fieldPrime else square

/-- The inverse of a field element other than zero, `a ^ (fieldPrime - 2)`. -/
def inverse (a : Nat) : Nat := powMod a 256 (fieldPrime - 2)

/-- The third point of the line through `(x₁, y₁)` with a slope, reflected. -/
def chord (slope x₁ y₁ x₂ : Nat) : Point :=
  let x := sub (slope * slope) (x₁ + x₂)
  .affine x (sub (slope * sub x₁ x) y₁)

/-- The sum of a point with itself. -/
def double : Point → Point
  | .infinity => .infinity
  | .affine x y =>
    if y = 0 then .infinity
    else chord (3 * x * x % fieldPrime * inverse (2 * y % fieldPrime) % fieldPrime) x y x

/-- The sum of two points. -/
def add : Point → Point → Point
  | .infinity, q => q
  | p, .infinity => p
  | .affine x₁ y₁, .affine x₂ y₂ =>
    if x₁ = x₂ then
      if y₁ = y₂ then double (.affine x₁ y₁) else .infinity
    else chord (sub y₂ y₁ * inverse (sub x₂ x₁) % fieldPrime) x₁ y₁ x₂

/-- `n` times a point, by doubling, over `bits` bits of `n`. -/
def multiply (p : Point) : (bits n : Nat) → Point
  | 0, _ => .infinity
  | bits + 1, n =>
    let twice := double (multiply p bits (n / 2))
    if n % 2 = 1 then add twice p else twice

/-- A coordinate as 32 big-endian bytes. -/
def coordinateBytes (n : Nat) : List UInt8 :=
  (List.range 32).map fun i => UInt8.ofNat (n / 256 ^ (31 - i))

/-- A private key: a number between zero and the order of the group. -/
structure PrivateKey where
  value : Nat
  positive : 0 < value
  lt_order : value < order

/-- The private key of a number within range. -/
def PrivateKey.ofNat? (n : Nat) : Option PrivateKey :=
  if hpos : 0 < n then if hlt : n < order then some ⟨n, hpos, hlt⟩ else none else none

/-- The public key of a private key, 64 bytes. -/
def PrivateKey.publicBytes (k : PrivateKey) : List UInt8 :=
  match multiply generator 256 k.value with
  | .infinity => coordinateBytes 0 ++ coordinateBytes 0
  | .affine x y => coordinateBytes x ++ coordinateBytes y

/-- The account address: the last 20 bytes of the digest of the public key. -/
def PrivateKey.address (k : PrivateKey) : Address where
  bytes := (Keccak.digest k.publicBytes).drop 12
  length_eq := by simp [Keccak.length_digest]

end PriceOracle.Secp256k1
