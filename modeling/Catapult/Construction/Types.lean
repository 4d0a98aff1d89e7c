import Catapult.Library.Keccak
import Mathlib.Algebra.Order.Ring.Int

/-
This file defines the value types that all subsystems share.
-/

namespace Catapult

/-- A `Hash256` holds 32 bytes. -/
abbrev Hash256 := Vector UInt8 32

/-- A default constructed hash is zero. -/
def zeroHash : Hash256 := Vector.replicate 32 0

/-- An address holds 24 bytes. -/
abbrev Address := Vector UInt8 24

instance hashLawfulBEq : LawfulBEq Hash256 := inferInstance

instance addressLawfulBEq : LawfulBEq Address := inferInstance

/-- A chain height is a 64 bit value. -/
abbrev Height := UInt64

abbrev BlockDuration := UInt64

abbrev MosaicId := UInt64

abbrev Amount := UInt64

/-- A chain score is a 128 bit value. -/
abbrev ChainScore := Fin (2 ^ 128)

instance chainScoreNeZero : NeZero (2 ^ 128) := inferInstance

/-- The digest comes from the linked crypto library. -/
class Sha3 where
  sha3_256 : List UInt8 → Hash256

/-- The linked crypto library computes SHA3-256. -/
abbrev sha3Digest : Sha3 := ⟨Keccak.sha3_256⟩

end Catapult
