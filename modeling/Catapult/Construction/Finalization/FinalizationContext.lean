import Catapult.Construction.Types
import Mathlib.Algebra.BigOperators.Group.List.Basic

/-
This file models the voters of a finalization epoch, their weights and the changes of these over the heights.
-/

namespace Catapult.Finalization

/-- A voting key holds 32 bytes. -/
abbrev VotingKey := Vector UInt8 32

def zeroVotingKey : VotingKey := Vector.replicate 32 0

abbrev FinalizationEpoch := UInt32

/-- The changes of a value are kept from the highest height to the lowest. -/
structure HeightIndexedHistoryMap (α : Type) where
  entries : List (Height × α)

/-- The value at a height is the newest one that is not above the height. -/
def HeightIndexedHistoryMap.get {α : Type} [Inhabited α] (history : HeightIndexedHistoryMap α) (height : Height) : α :=
  match history.entries.find? fun entry => entry.1 ≤ height with
  | some entry => entry.2
  | none => default

/-- A voting key is valid for a range of epochs. -/
structure PinnedVotingKey where
  votingKey : VotingKey
  startEpoch : FinalizationEpoch
  endEpoch : FinalizationEpoch

/-- The zero key is returned if no key is valid at the epoch. -/
def findVotingPublicKeyForEpoch (pinnedPublicKeys : List PinnedVotingKey) (epoch : FinalizationEpoch) : VotingKey :=
  match pinnedPublicKeys.find? fun pinned => pinned.startEpoch ≤ epoch && epoch ≤ pinned.endEpoch with
  | some pinned => pinned.votingKey
  | none => zeroVotingKey

structure AccountHistory where
  balance : HeightIndexedHistoryMap Amount
  votingPublicKeys : HeightIndexedHistoryMap (List PinnedVotingKey)

/-- The balances of one mosaic add up to at most its supply, which is a 64 bit amount. -/
structure HighValueAccounts where
  accountHistories : List (Address × AccountHistory)
  distinct : (accountHistories.map Prod.fst).Nodup
  supplied : ∀ height, (accountHistories.map fun history => (history.2.balance.get height).toNat).sum < 2 ^ 64

/-- These settings have an influence on the voters and on the messages. -/
structure FinalizationConfiguration where
  size : UInt64
  threshold : UInt64
  maxHashesPerPoint : UInt32
  treasuryReissuanceEpoch : FinalizationEpoch
  treasuryReissuanceEpochIneligibleVoterAddresses : List Address
  votingSetGrouping : UInt64

structure FinalizationAccountView where
  weight : Amount

def FinalizationAccountView.zero : FinalizationAccountView := ⟨0⟩

structure FinalizationContext where
  epoch : FinalizationEpoch
  height : Height
  config : FinalizationConfiguration
  weight : Amount
  accounts : VotingKey → Option FinalizationAccountView

namespace FinalizationContext

/-- The first account with a voting key keeps it. -/
def emplace (accounts : VotingKey → Option FinalizationAccountView) (votingPublicKey : VotingKey)
    (accountView : FinalizationAccountView) : VotingKey → Option FinalizationAccountView :=
  match accounts votingPublicKey with
  | some _ => accounts
  | none => Function.update accounts votingPublicKey (some accountView)

/-- Every eligible balance counts for the total weight. -/
def addAccount (context : FinalizationContext) (accountHistory : Address × AccountHistory) : FinalizationContext :=
  let balance := accountHistory.2.balance.get context.height
  let effectiveVotingPublicKey :=
    findVotingPublicKeyForEpoch (accountHistory.2.votingPublicKeys.get context.height) context.epoch
  let isIneligible := context.config.treasuryReissuanceEpoch ≤ context.epoch &&
    context.config.treasuryReissuanceEpochIneligibleVoterAddresses.contains accountHistory.1
  if balance = 0 then context
  else if effectiveVotingPublicKey = zeroVotingKey then context
  else if isIneligible then context
  else { context with
    accounts := emplace context.accounts effectiveVotingPublicKey ⟨balance⟩
    weight := context.weight + balance }

def create (epoch : FinalizationEpoch) (height : Height) (config : FinalizationConfiguration)
    (highValueAccounts : HighValueAccounts) : FinalizationContext :=
  highValueAccounts.accountHistories.foldl addAccount ⟨epoch, height, config, 0, fun _ => none⟩

def lookup (context : FinalizationContext) (votingPublicKey : VotingKey) : FinalizationAccountView :=
  (context.accounts votingPublicKey).getD .zero

end FinalizationContext

namespace HeightIndexedHistoryMap

variable {α : Type}

/-- The entries before the lower bound of a height are those above it. -/
def upperEntries (entries : List (Height × α)) (height : Height) : List (Height × α) := entries.takeWhile fun entry => height < entry.1

def lowerBound (entries : List (Height × α)) (height : Height) : List (Height × α) := entries.dropWhile fun entry => height < entry.1

def insertOrAssign (entries : List (Height × α)) (height : Height) (value : α) : List (Height × α) :=
  upperEntries entries height ++ (height, value) ::
    match lowerBound entries height with
    | [] => []
    | entry :: rest => if entry.1 = height then rest else entry :: rest

def erase (entries : List (Height × α)) (height : Height) : List (Height × α) := entries.filter fun entry => entry.1 ≠ height

/-- The next larger entry is deleted if it has the same value. -/
def eraseLarger [DecidableEq α] (entries : List (Height × α)) (height : Height) (value : α) : List (Height × α) :=
  match (upperEntries entries height).getLast? with
  | some larger => if larger.2 = value then erase entries larger.1 else entries
  | none => entries

variable [Inhabited α] [DecidableEq α]

/-- The new entry is deleted if the next smaller entry has the same value. -/
def add (history : HeightIndexedHistoryMap α) (height : Height) (value : α) : HeightIndexedHistoryMap α :=
  let merged := eraseLarger (insertOrAssign history.entries height value) height value
  if HeightIndexedHistoryMap.get ⟨merged⟩ (height - 1) = value then ⟨erase merged height⟩ else ⟨merged⟩

/-- The value at the height is added again. -/
def pruneLess (history : HeightIndexedHistoryMap α) (height : Height) : HeightIndexedHistoryMap α :=
  match lowerBound history.entries height with
  | [] => history
  | entry :: _ => add ⟨upperEntries history.entries height⟩ height entry.2

def pruneGreater (history : HeightIndexedHistoryMap α) (height : Height) : HeightIndexedHistoryMap α :=
  ⟨lowerBound history.entries height⟩

end HeightIndexedHistoryMap

end Catapult.Finalization
