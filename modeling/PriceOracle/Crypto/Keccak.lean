/-!
# Keccak-256

The hash of owner tokens, method signatures and addresses: the sponge over the Keccak-f[1600]
permutation with a rate of 136 bytes and the padding `01 .. 80`.
-/

namespace PriceOracle.Keccak

/-- The 25 lanes of the permutation; lane `(x, y)` has index `x + 5 * y`. -/
abbrev Lanes := Array UInt64

/-- The constants added in each of the 24 rounds. -/
def roundConstants : List UInt64 :=
  [0x0000000000000001, 0x0000000000008082, 0x800000000000808A, 0x8000000080008000,
   0x000000000000808B, 0x0000000080000001, 0x8000000080008081, 0x8000000000008009,
   0x000000000000008A, 0x0000000000000088, 0x0000000080008009, 0x000000008000000A,
   0x000000008000808B, 0x800000000000008B, 0x8000000000008089, 0x8000000000008003,
   0x8000000000008002, 0x8000000000000080, 0x000000000000800A, 0x800000008000000A,
   0x8000000080008081, 0x8000000000008080, 0x0000000080000001, 0x8000000080008008]

/-- The rotation of each lane. -/
def rotations : Array UInt64 :=
  #[0, 1, 62, 28, 27, 36, 44, 6, 55, 20, 3, 10, 43, 25, 39, 41, 45, 15, 21, 8, 18, 2, 61, 56, 14]

def rotateLeft (w n : UInt64) : UInt64 := if n = 0 then w else w <<< n ||| w >>> (64 - n)

def lane (s : Lanes) (x y : Nat) : UInt64 := s.getD (x % 5 + 5 * (y % 5)) 0

/-- Adds to each lane the parities of two neighbouring columns. -/
def theta (s : Lanes) : Lanes :=
  let column (x : Nat) := lane s x 0 ^^^ lane s x 1 ^^^ lane s x 2 ^^^ lane s x 3 ^^^ lane s x 4
  Array.ofFn fun i : Fin 25 =>
    let x := i.val % 5
    lane s x (i.val / 5) ^^^ column (x + 4) ^^^ rotateLeft (column (x + 1)) 1

/-- Rotates the lanes and moves lane `(x, y)` to `(y, 2x + 3y)`. -/
def rhoPi (s : Lanes) : Lanes :=
  Array.ofFn fun i : Fin 25 =>
    let x := i.val % 5
    let y := i.val / 5
    -- The lane that moves here.
    let source := (x + 3 * y) % 5
    rotateLeft (lane s source x) (rotations.getD (source + 5 * x) 0)

/-- Combines each lane with the next two of its row. -/
def chi (s : Lanes) : Lanes :=
  Array.ofFn fun i : Fin 25 =>
    let x := i.val % 5
    let y := i.val / 5
    lane s x y ^^^ (~~~ (lane s (x + 1) y) &&& lane s (x + 2) y)

/-- One round of the permutation. -/
def round (s : Lanes) (constant : UInt64) : Lanes :=
  let s := chi (rhoPi (theta s))
  s.setIfInBounds 0 (lane s 0 0 ^^^ constant)

/-- The Keccak-f[1600] permutation. -/
def permute (s : Lanes) : Lanes := roundConstants.foldl round s

/-- The number of bytes absorbed at a time. -/
def rate : Nat := 136

/-- The message with its padding, a whole number of blocks long. -/
def pad (message : List UInt8) : List UInt8 :=
  let missing := rate - message.length % rate
  if missing = 1 then message ++ [0x81]
  else message ++ 0x01 :: List.replicate (missing - 2) 0 ++ [0x80]

/-- The little-endian word of eight bytes. -/
def word (bytes : List UInt8) : UInt64 :=
  bytes.foldr (fun b w => w <<< 8 ||| b.toUInt64) 0

/-- Adds a block to the first lanes. -/
def absorb (s : Lanes) (block : List UInt8) : Lanes :=
  Array.ofFn fun i : Fin 25 =>
    if i.val * 8 < rate then
      lane s (i.val % 5) (i.val / 5) ^^^ word ((block.drop (i.val * 8)).take 8)
    else lane s (i.val % 5) (i.val / 5)

/-- Absorbs `blocks` blocks of a padded message. -/
def sponge : (blocks : Nat) → List UInt8 → Lanes → Lanes
  | 0, _, s => s
  | n + 1, bytes, s => sponge n (bytes.drop rate) (permute (absorb s (bytes.take rate)))

/-- The bytes of a lane, little-endian. -/
def laneBytes (w : UInt64) : List UInt8 :=
  (List.range 8).map fun i => (w >>> (8 * i).toUInt64).toUInt8

/-- The Keccak-256 digest, 32 bytes. -/
def digest (message : List UInt8) : List UInt8 :=
  let padded := pad message
  let final := sponge (padded.length / rate) padded (Array.replicate 25 0)
  (List.range 4).flatMap fun i => laneBytes (final.getD i 0)

/-- The digest of the UTF-8 bytes of a text. -/
def digestText (s : String) : List UInt8 := digest s.toUTF8.toList

theorem length_digest (message : List UInt8) : (digest message).length = 32 := by
  simp [digest, laneBytes, List.range, List.range.loop]

end PriceOracle.Keccak
