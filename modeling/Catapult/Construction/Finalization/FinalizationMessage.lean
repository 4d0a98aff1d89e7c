import Catapult.Construction.Finalization.FinalizationContext

/-
This file models the messages of voters and their verification.
-/

namespace Catapult.Finalization

abbrev VotingSignature := Vector UInt8 64

/-- The curve signature comes from the linked crypto library. -/
class VotingVerifier where
  verify : VotingKey → List UInt8 → VotingSignature → Bool

structure ParentPublicKeySignaturePair where
  parentPublicKey : VotingKey
  signature : VotingSignature

/-- The root key signs the bottom key, and the bottom key signs the data. -/
structure BmTreeSignature where
  root : ParentPublicKeySignaturePair
  bottom : ParentPublicKeySignaturePair

/-- The bytes of a number start with the least significant one. -/
def toBytes (size : Nat) (value : Nat) : List UInt8 :=
  (List.range size).map fun index => UInt8.ofNat (value >>> (8 * index))

def verifyBoundSignature [VotingVerifier] (pair : ParentPublicKeySignaturePair) (signedPublicKey : VotingKey)
    (boundary : UInt64) : Bool :=
  VotingVerifier.verify pair.parentPublicKey (signedPublicKey.toList ++ toBytes 8 boundary.toNat) pair.signature

def verify [VotingVerifier] (signature : BmTreeSignature) (keyIdentifier : UInt64) (buffer : List UInt8) : Bool :=
  if !verifyBoundSignature signature.root signature.bottom.parentPublicKey keyIdentifier then false
  else VotingVerifier.verify signature.bottom.parentPublicKey buffer signature.bottom.signature

abbrev FinalizationPoint := UInt32

structure FinalizationRound where
  epoch : FinalizationEpoch
  point : FinalizationPoint
  deriving DecidableEq

namespace FinalizationRound

/-- The epoch counts first. -/
def lt (lhs rhs : FinalizationRound) : Prop :=
  if lhs.epoch ≠ rhs.epoch then lhs.epoch < rhs.epoch else lhs.point < rhs.point

instance : LT FinalizationRound := ⟨lt⟩

instance : LE FinalizationRound := ⟨fun lhs rhs => lhs < rhs ∨ lhs = rhs⟩

instance (lhs rhs : FinalizationRound) : Decidable (lhs < rhs) :=
  inferInstanceAs (Decidable (if lhs.epoch ≠ rhs.epoch then lhs.epoch < rhs.epoch else lhs.point < rhs.point))

instance (lhs rhs : FinalizationRound) : Decidable (lhs ≤ rhs) :=
  inferInstanceAs (Decidable (lhs < rhs ∨ lhs = rhs))

theorem lt_iff {lhs rhs : FinalizationRound} : lhs < rhs ↔ lhs.epoch.toNat < rhs.epoch.toNat ∨
      lhs.epoch.toNat = rhs.epoch.toNat ∧ lhs.point.toNat < rhs.point.toNat := by
  change FinalizationRound.lt lhs rhs ↔ _
  unfold FinalizationRound.lt
  rw [UInt32.toNat_inj]
  split
  · next different => simp [UInt32.lt_iff_toNat_lt, different]
  · next same =>
    rw [ne_eq, Decidable.not_not] at same
    simp [UInt32.lt_iff_toNat_lt, same]

theorem le_refl (round : FinalizationRound) : round ≤ round := .inr rfl

theorem lt_trans {first second third : FinalizationRound} (lower : first < second) (upper : second < third) : first < third := by
  rw [lt_iff] at *
  omega

theorem ne_of_lt {lhs rhs : FinalizationRound} (less : lhs < rhs) : lhs ≠ rhs := by
  rintro rfl
  rw [lt_iff] at less
  omega

theorem lt_of_le_of_lt {first second third : FinalizationRound} (lower : first ≤ second) (upper : second < third) :
    first < third := by
  rcases lower with less | rfl
  · exact lt_trans less upper
  · exact upper

theorem le_trans {first second third : FinalizationRound} (lower : first ≤ second) (upper : second ≤ third) : first ≤ third := by
  rcases upper with less | rfl
  · exact .inl (lt_of_le_of_lt lower less)
  · exact lower

theorem epoch_le {lhs rhs : FinalizationRound} (less : lhs ≤ rhs) : lhs.epoch.toNat ≤ rhs.epoch.toNat := by
  rcases less with less | rfl
  · rw [lt_iff] at less
    omega
  · exact Nat.le_refl _

end FinalizationRound

structure FinalizationStatistics where
  round : FinalizationRound
  height : Height
  hash : Hash256

def FinalizationStatistics.empty : FinalizationStatistics := ⟨⟨0, 0⟩, 0, zeroHash⟩

inductive FinalizationStage where
  | prevote
  | precommit
  deriving DecidableEq

/-- The lowest bit of the point and stage value is the stage. -/
structure StepIdentifier where
  epoch : FinalizationEpoch
  pointStage : UInt32

def StepIdentifier.stage (step : StepIdentifier) : FinalizationStage :=
  if step.pointStage &&& 1 = 0 then .prevote else .precommit

def stepIdentifierToBmKeyIdentifier (step : StepIdentifier) : UInt64 := step.epoch.toUInt64

/-- The number of hashes is a 32 bit field of the message. -/
structure FinalizationMessage where
  reserved1 : UInt32
  signature : BmTreeSignature
  version : UInt32
  stepIdentifier : StepIdentifier
  height : Height
  hashes : List Hash256
  counted : hashes.length < 2 ^ 32

namespace FinalizationMessage

def currentVersion : UInt32 := 1

def hashesCount (message : FinalizationMessage) : UInt32 := UInt32.ofNat message.hashes.length

/-- The header that is not signed holds the size, the padding and the signature. -/
def headerSize : Nat := 4 + 4 + 2 * (32 + 64)

/-- The data of the message follows its header. -/
def toBuffer (message : FinalizationMessage) : List UInt8 :=
  toBytes 4 message.version.toNat ++ toBytes 4 message.hashesCount.toNat ++
    toBytes 4 message.stepIdentifier.epoch.toNat ++ toBytes 4 message.stepIdentifier.pointStage.toNat ++
    toBytes 8 message.height.toNat ++ message.hashes.flatMap Vector.toList

def size (message : FinalizationMessage) : UInt32 := UInt32.ofNat (headerSize + message.toBuffer.length)

def ofPair (pair : ParentPublicKeySignaturePair) : List UInt8 :=
  pair.parentPublicKey.toList ++ pair.signature.toList

def calculateMessageHash [Sha3] (message : FinalizationMessage) : Hash256 :=
  Sha3.sha3_256 (toBytes 4 message.size.toNat ++ toBytes 4 message.reserved1.toNat ++
    ofPair message.signature.root ++ ofPair message.signature.bottom ++ message.toBuffer)

end FinalizationMessage

inductive ProcessMessageResult where
  | failureSignature
  | failurePadding
  | failureVersion
  | failureVoter
  | success
  deriving DecidableEq

def processMessage [VotingVerifier] (message : FinalizationMessage) (context : FinalizationContext) :
    ProcessMessageResult × UInt64 :=
  let accountView := context.lookup message.signature.root.parentPublicKey
  if accountView.weight = 0 then (.failureVoter, 0)
  else if message.reserved1 ≠ 0 then (.failurePadding, 0)
  else if message.version ≠ FinalizationMessage.currentVersion then (.failureVersion, 0)
  else if !verify message.signature (stepIdentifierToBmKeyIdentifier message.stepIdentifier) message.toBuffer then
    (.failureSignature, 0)
  else (.success, accountView.weight)

end Catapult.Finalization
