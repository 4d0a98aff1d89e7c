import Mathlib.Algebra.Order.Ring.Nat
import Mathlib.Data.List.Basic

/-
This file defines the SHA3-256 digest as a computable function on bytes.
-/

namespace Keccak

/-- The state consists of 25 lanes of 64 bits, and the lane at column x and row y has index x + 5y. -/
abbrev State := List UInt64

def lane (state : State) (x y : Nat) : UInt64 := state.getD (x % 5 + 5 * (y % 5)) 0

def ofLanes (value : Nat → Nat → UInt64) : State :=
  (List.range 25).map fun index => value (index % 5) (index / 5)

def rotateLeft (value : UInt64) (amount : Nat) : UInt64 :=
  if amount = 0 then value
  else value <<< UInt64.ofNat amount ||| value >>> UInt64.ofNat (64 - amount)

def rotationOffsets : List Nat :=
  [0, 1, 62, 28, 27, 36, 44, 6, 55, 20, 3, 10, 43, 25, 39, 41, 45, 15, 21, 8, 18, 2, 61, 56, 14]

def roundConstants : List UInt64 :=
  [0x0000000000000001, 0x0000000000008082, 0x800000000000808A, 0x8000000080008000,
    0x000000000000808B, 0x0000000080000001, 0x8000000080008081, 0x8000000000008009,
    0x000000000000008A, 0x0000000000000088, 0x0000000080008009, 0x000000008000000A,
    0x000000008000808B, 0x800000000000008B, 0x8000000000008089, 0x8000000000008003,
    0x8000000000008002, 0x8000000000000080, 0x000000000000800A, 0x800000008000000A,
    0x8000000080008081, 0x8000000000008080, 0x0000000080000001, 0x8000000080008008]

def theta (state : State) : State :=
  let columns := (List.range 5).map fun x =>
    lane state x 0 ^^^ lane state x 1 ^^^ lane state x 2 ^^^ lane state x 3 ^^^ lane state x 4
  let parities := (List.range 5).map fun x =>
    columns.getD ((x + 4) % 5) 0 ^^^ rotateLeft (columns.getD ((x + 1) % 5) 0) 1
  ofLanes fun x y => lane state x y ^^^ parities.getD x 0

def rho (state : State) : State := state.zipWith rotateLeft rotationOffsets

def pi (state : State) : State := ofLanes fun x y => lane state (x + 3 * y) x

def chi (state : State) : State :=
  ofLanes fun x y => lane state x y ^^^ (~~~lane state (x + 1) y &&& lane state (x + 2) y)

/-- The round constant is added to the first lane. -/
def round (state : State) (constant : UInt64) : State :=
  match chi (pi (rho (theta state))) with
  | first :: rest => (first ^^^ constant) :: rest
  | [] => []

def permute (state : State) : State := roundConstants.foldl round state

def laneOfBytes (bytes : List UInt8) : UInt64 :=
  UInt64.ofNat (bytes.foldr (fun byte value => byte.toNat + 256 * value) 0)

def bytesOfLane (value : UInt64) : List UInt8 :=
  (List.range 8).map fun index => UInt8.ofNat (value.toNat / 256 ^ index)

def chunks (size : Nat) : Nat → List UInt8 → List (List UInt8)
  | 0, _ => []
  | count + 1, bytes => bytes.take size :: chunks size count (bytes.drop size)

/-- The padding fills the last block of 136 bytes. -/
def pad (message : List UInt8) : List UInt8 :=
  let missing := 136 - message.length % 136
  if missing = 1 then message ++ [0x86]
  else message ++ [0x06] ++ List.replicate (missing - 2) 0 ++ [0x80]

def absorb (state : State) (block : List UInt8) : State :=
  permute (state.zipWith (· ^^^ ·) ((chunks 8 17 block).map laneOfBytes ++ List.replicate 8 0))

def digest (message : List UInt8) : List UInt8 :=
  let padded := pad message
  let absorbed := (chunks 136 (padded.length / 136) padded).foldl absorb (List.replicate 25 0)
  ((absorbed.take 4).map bytesOfLane).flatten

def sha3_256 (message : List UInt8) : Vector UInt8 32 :=
  let bytes := digest message
  Vector.ofFn fun index => bytes.getD index 0

/-- The digits of a number are the bytes of a digest. -/
def ofNat (value : Nat) : Vector UInt8 32 := Vector.ofFn fun index => UInt8.ofNat (value >>> (8 * (31 - index.val)))

/-- Known digests are looked up instead of being computed. -/
def recorded (known : List (List UInt8 × Vector UInt8 32)) (message : List UInt8) : Vector UInt8 32 :=
  (known.lookup message).getD (sha3_256 message)

theorem recorded_eq {known : List (List UInt8 × Vector UInt8 32)} (right : ∀ entry ∈ known, entry.2 = sha3_256 entry.1) :
    recorded known = sha3_256 := by
  funext message
  rw [recorded]
  cases found : known.lookup message with
  | none => rfl
  | some digest =>
    obtain ⟨before, after, rfl, _⟩ := List.lookup_eq_some_iff.mp found
    exact right (message, digest) (List.mem_append_right before List.mem_cons_self)

end Keccak
