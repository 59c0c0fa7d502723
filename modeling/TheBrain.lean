import TheBrain.Mainnet.ArionPayouts
import TheBrain.Bridge.MintLedger
import TheBrain.Bridge.StakingRewards
import TheBrain.ComputeScoring.Prices
import TheBrain.ComputeScoring.Aggregates
import TheBrain.ComputeScoring.EpochHistory
import TheBrain.Mainnet.ComputePayouts
import TheBrain.Arion.Families
import TheBrain.ComputeScoring.Collateral
import TheBrain.Mainnet.NodeSignatures
import TheBrain.Registration.Deregistration
import TheBrain.Marketplace.DueIndex
import TheBrain.Marketplace.Repricing
import TheBrain.Marketplace.Conservation
import TheBrain.Marketplace.Chargebacks
import TheBrain.HippiusTypes.LiveWire
import TheBrain.HippiusTypes.ReportData
import TheBrain.Marketplace.StoredSubscriptions
import TheBrain.Bridge.Expiry
import TheBrain.Bridge.Completion
import TheBrain.Bridge.RequestAgreement
import TheBrain.Bank.DailyLimit
import TheBrain.Arion.Accruals
import TheBrain.Arion.Weights
import TheBrain.Mainnet.Removals
import TheBrain.ComputeScoring.Oracle
import TheBrain.Arion.Pruning
import TheBrain.Arion.AttestationBuckets
import TheBrain.Ip
