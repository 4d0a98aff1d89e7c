import Catapult.Construction.Types
import Mathlib.Data.Nat.Digits.Defs

/-
This file models the difficulty of a block, the hit of a generation hash and the target that the hit must stay below.
-/

namespace Catapult.Chain

namespace Difficulty

def defaultValue : UInt64 := 100000000000000

def minValue : UInt64 := defaultValue / 10

def maxValue : UInt64 := defaultValue * 10

def clamp (value : UInt64) : UInt64 :=
  if value < minValue then minValue else if value > maxValue then maxValue else value

end Difficulty

/-- Every difficulty is clamped when it is created. -/
structure Difficulty where
  value : UInt64
  min_le : Difficulty.minValue ≤ value
  le_max : value ≤ Difficulty.maxValue
  deriving DecidableEq

namespace Difficulty

theorem min_le_clamp (value : UInt64) : minValue ≤ clamp value := by
  unfold clamp
  split
  · exact UInt64.le_refl _
  · split
    · decide
    · exact UInt64.not_lt.mp ‹_›

theorem clamp_le_max (value : UInt64) : clamp value ≤ maxValue := by
  unfold clamp
  split
  · decide
  · split
    · exact UInt64.le_refl _
    · exact UInt64.not_lt.mp ‹_›

def ofValue (value : UInt64) : Difficulty := ⟨clamp value, min_le_clamp value, clamp_le_max value⟩

instance : Inhabited Difficulty := ⟨ofValue defaultValue⟩

end Difficulty

/-- Timestamps count milliseconds. -/
structure BlockStatistic where
  timestamp : UInt64
  difficulty : Difficulty

/-- The target time counts milliseconds. -/
structure BlockchainConfiguration where
  blockGenerationTargetTime : UInt64

/-- A division of 128 bit values throws if the divisor is zero. -/
inductive ArithmeticError where
  | divisionByZero
  deriving DecidableEq

/-- Changes of the difficulty are clamped to five percent. -/
def clampChange (lastDifficulty difficulty : UInt64) : UInt64 :=
  if 19 * lastDifficulty > 20 * difficulty then 19 * lastDifficulty / 20
  else if 21 * lastDifficulty < 20 * difficulty then 21 * lastDifficulty / 20
  else difficulty

def countStatistic (counts : UInt64 × UInt64) (statistic : BlockStatistic) : UInt64 × UInt64 :=
  (counts.1 + 1, counts.2 + statistic.difficulty.value)

def calculateDifficulty (statistics : List BlockStatistic) (config : BlockchainConfiguration) :
    Except ArithmeticError Difficulty :=
  let (historySize, totalDifficulty) := statistics.foldl countStatistic (0, 0)
  if historySize < 2 then .ok default
  else
    match statistics.head?, statistics.getLast? with
    | some firstStatistic, some lastStatistic =>
      let timeDiff := lastStatistic.timestamp - firstStatistic.timestamp
      let averageDifficulty := totalDifficulty / historySize
      -- the products are computed in 128 bits
      let largeDifficulty : BitVec 128 := averageDifficulty.toBitVec.setWidth 128 *
        config.blockGenerationTargetTime.toBitVec.setWidth 128 * (historySize - 1).toBitVec.setWidth 128
      if timeDiff = 0 then .error .divisionByZero
      else
        let difficulty : UInt64 := ⟨(largeDifficulty / timeDiff.toBitVec.setWidth 128).setWidth 64⟩
        .ok (.ofValue (clampChange lastStatistic.difficulty.value difficulty))
    | _, _ => .ok default

/-- A generation hash holds 32 bytes. -/
abbrev GenerationHash := Vector UInt8 32

inductive MathError where
  | invalidArgument (message : String)
  deriving DecidableEq

/-- The first byte is the most significant one. -/
def bigEndian (bytes : List UInt8) : Nat :=
  Nat.ofDigits 256 (bytes.reverse.map UInt8.toNat)

def precision : UInt64 := 31

def powerOfTwo : UInt64 := (1 : UInt64) <<< precision

/-- A value other than zero reaches the precision after at most 31 rounds. -/
def normalize : Nat → UInt64 × UInt64 → UInt64 × UInt64
  | 0, state => state
  | rounds + 1, (x, y) => if x < powerOfTwo then normalize rounds (x <<< 1, y - 1) else (x, y)

def extractCoefficient : UInt64 × UInt64 → UInt64 × UInt64
  | (x, y) =>
    let squared := (x * x) >>> precision
    if squared ≥ 2 * powerOfTwo then (squared >>> 1, (y <<< 1) + 1) else (squared, y <<< 1)

def log2TimesPowerOfTwo (value : UInt64) (n : Nat) : Except MathError UInt64 :=
  if value = 0 then .error (.invalidArgument "log2(0) is not defined")
  else .ok (extractCoefficient^[n] (normalize precision.toNat (value, precision))).2

structure GenerationHashInfo where
  value : UInt32
  numLeadingZeros : UInt32
  deriving DecidableEq

def numLeadingZerosFrom (index : UInt32) : List UInt8 → UInt32
  | [] => 256
  | byte :: bytes =>
    if byte ≠ 0 then 8 * index + 7 - byte.log2.toUInt32 else numLeadingZerosFrom (index + 1) bytes

def numLeadingZeros (generationHash : GenerationHash) : UInt32 :=
  numLeadingZerosFrom 0 generationHash.toList

/-- The four bytes are swapped from the order of the machine. -/
def extractFromHashAtPosition (hash : GenerationHash) (index : Nat) : UInt32 :=
  UInt32.ofNat (bigEndian ((hash.toList.drop index).take 4))

def extractGenerationHashInfo (generationHash : GenerationHash) : GenerationHashInfo :=
  let numLeadingZeros := numLeadingZeros generationHash
  if 224 ≤ numLeadingZeros then ⟨extractFromHashAtPosition generationHash 28, 224⟩
  else
    let quotient := numLeadingZeros / 8
    let remainder := numLeadingZeros % 8
    let value := extractFromHashAtPosition generationHash quotient.toNat
    let next := generationHash.toList.getD (quotient.toNat + 4) 0
    ⟨(value <<< remainder) + (next.toUInt32 >>> (8 - remainder)), numLeadingZeros⟩

def twoTo54 : UInt64 := (1 : UInt64) <<< 54

def calculateHit (generationHash : GenerationHash) : Except MathError UInt64 := do
  let hashInfo := extractGenerationHashInfo generationHash
  if hashInfo.value = 0 then return 0xFFFFFFFFFFFFFFFF
  if hashInfo.value = 0xFFFFFFFF then return 0
  let logValue ← log2TimesPowerOfTwo hashInfo.value.toUInt64 54
  let result : BitVec 128 := ((32 + hashInfo.numLeadingZeros).toUInt64 * twoTo54 - logValue).toBitVec.setWidth 128
  -- the quotient divides by log2(e) and is computed in 128 bits
  return ⟨(result * 10000000000000000 / 14426950408889634).setWidth 64⟩

/-- A time span counts milliseconds. -/
structure TimeSpan where
  millis : Int64

namespace TimeSpan

/-- The quotient is truncated before it is read as an unsigned value. -/
def seconds (timeSpan : TimeSpan) : UInt64 := UInt64.ofInt (timeSpan.millis.toInt.tdiv 1000)

def fromSeconds (seconds : UInt64) : TimeSpan := ⟨Int64.ofInt (seconds.toNat * 1000)⟩

def fromDifference (last first : UInt64) : TimeSpan := ⟨(last - first).toInt64⟩

end TimeSpan

/-- The smoothing factor counts thousandths. -/
structure TargetConfiguration where
  blockGenerationTargetTime : TimeSpan
  blockTimeSmoothingFactor : UInt32
  totalChainImportance : UInt64

/-- A block target has 256 bits. -/
abbrev BlockTarget := BitVec 256

/-- Clearing the fraction of the sum rounds to the nearest integer. -/
def integerPart (value : Int) : Int := value + 0x8000 - (value + 0x8000) % 65536

/-- The fraction lies between minus one half and one half. -/
def fraction (value : Int) : Int := value - integerPart value

def shiftAmount (value : Int) : Int := (15 * 65536 - integerPart value).tdiv 65536

/-- This polynomial approximates the power of two of a fraction. -/
def approximation (f : Int) : Int :=
  let r : Int := 0x00000E20
  let r := (r * f + 0x3E1CC333).tdiv 131072
  let r := (r * f + 0x58BD46A6).tdiv 65536
  r * f + 0x7FFDE4A3

/-- The cast to 32 bits comes before the shift. -/
def fixedPointPowerOfTwo (value : Int) : Nat :=
  (approximation (fraction value) % 2 ^ 32).toNat >>> (shiftAmount value).toNat

def fixedPointLog2Of100 : Int := 435411

/-- The factor is shifted as a 32 bit value before it is widened. -/
def smoothingFactor (config : TargetConfiguration) : Nat :=
  (config.blockTimeSmoothingFactor <<< 16).toNat * 2 ^ 16 / ((1000 : UInt32) <<< 16).toNat

/-- A time is shifted as a 64 bit value before it is widened. -/
def fixedPointTime (seconds : UInt64) : Int := (seconds <<< 16).toNat

/-- All values fit into 128 bits. -/
def smoothingPower (timeDiff : UInt64) (config : TargetConfiguration) : Except ArithmeticError Int :=
  let factor := smoothingFactor config
  let targetTime := fixedPointTime config.blockGenerationTargetTime.seconds
  let elapsedTime := fixedPointTime timeDiff
  if targetTime = 0 then .error .divisionByZero
  else
    let power := (factor * (elapsedTime - targetTime)).tdiv targetTime
    .ok ((power * 14426950408).tdiv 10000000000)

/-- The power of two is computed only between both caps. -/
def smootherOf (power : Int) : Nat :=
  if -(5 * 65536) > power then 0
  else if fixedPointLog2Of100 < power then 100 * 65536
  else fixedPointPowerOfTwo power

def smoother (timeDiff : UInt64) (config : TargetConfiguration) : Except ArithmeticError Nat :=
  if config.blockTimeSmoothingFactor ≠ 0 then (smoothingPower timeDiff config).map smootherOf else .ok 65536

def getMultiplier (timeDiff : UInt64) (config : TargetConfiguration) : Except ArithmeticError BlockTarget :=
  (smoother timeDiff config).map fun smoother => (BitVec.ofNat 256 (UInt64.ofNat smoother <<< 38).toNat) <<< 10

/-- The factor scales to the original total chain importance. -/
def scaledTarget (seconds signerImportance : UInt64) (multiplier : BlockTarget) : BlockTarget :=
  BitVec.ofNat 256 seconds.toNat * BitVec.ofNat 256 signerImportance.toNat * multiplier * 8999999998

def calculateTarget (timeSpan : TimeSpan) (difficulty : Difficulty) (signerImportance : UInt64) (config : TargetConfiguration) :
    Except ArithmeticError BlockTarget := do
  let multiplier ← getMultiplier timeSpan.seconds config
  let target := scaledTarget timeSpan.seconds signerImportance multiplier
  if config.totalChainImportance = 0 then throw .divisionByZero
  return target / BitVec.ofNat 256 config.totalChainImportance.toNat / BitVec.ofNat 256 difficulty.value.toNat

end Catapult.Chain
