import Catapult.Proof.Delta.MerkleRoot
import Catapult.Proof.Lock.Payouts
import Catapult.Proof.Multisig.Rollback
import Catapult.Proof.Finalization.Voting
import Catapult.Proof.Finalization.ProofLookup
import Catapult.Proof.Finalization.ThresholdWeight
import Catapult.Proof.Chain.ForkSafety
import Catapult.Proof.Chain.Hit
import Catapult.Proof.Chain.TargetMonotonicity
import Catapult.Proof.Chain.PendingRanges
import Catapult.Proof.Chain.ForkPoint
import Catapult.Proof.Chain.SwitchRuns
import Catapult.Proof.Namespace.HistoryBytes
import Catapult.Proof.Namespace.Registration
import Catapult.Proof.Unconfirmed.Consistency
import Catapult.Proof.Voting.ForwardSecurity
import Catapult.Proof.Metadata.Rollback
import Catapult.Proof.Restriction.MosaicRestrictionRollback
import Catapult.Proof.Restriction.AccountRestrictionRollback
import Catapult.Proof.State.AccountRoundTrip
import Catapult.Proof.State.Assignment
import Catapult.Proof.Mosaic.MosaicRollback
import Catapult.Proof.Partial.ConcurrentUpdates
import Catapult.Proof.Disruptor.Soundness
import Catapult.Proof.Io.BlockStorage
import Catapult.Proof.Crypto.MerkleHashBuilder
import Catapult.Proof.Harvesting.Selection
import Catapult.Proof.Multisig.Sufficiency
import Catapult.Proof.Cache.DynamicFeeMultiplier
import Catapult.Proof.Utils.ConfigurationIntegers
import Catapult.Proof.Finalization.VotingSets
import Catapult.Proof.Finalization.HistorySteps
import Catapult.Proof.Model.Inflation
import Catapult.Proof.Model.AddressStrings
import Catapult.Proof.Tree.EncodedKeys
import Catapult.Proof.Model.BlockPayloads
import Catapult.Proof.Ionet.PacketExtraction
import Catapult.Proof.Harvesting.SurvivingResolutions
import Catapult.Proof.State.VotingKeys
import Catapult.Proof.Importances.ImportanceRollback
import Catapult.Proof.Tree.CommitDurability
import Catapult.Proof.Finalization.ProofAgreement
