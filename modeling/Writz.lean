import Writz.Relayer.DepositReads.System
import Writz.Relayer.DepositReads.Index
import Writz.Relayer.Proofs.VaultEvents
import Writz.Relayer.VaultWatcher.System
import Writz.Util.EventLog
import Writz.Frontend.Loan
import Writz.Frontend.Proofs.Loan
import Writz.Frontend.Proofs.Timelock
import Writz.Frontend.Timelock
import Writz.Relayer.Proofs.FaucetLimits
import Writz.Relayer.Proofs.ReleaseOutput
import Writz.Relayer.Proofs.StripWitness
import Writz.Relayer.Proofs.CctpMessage
import Writz.Relayer.Cctp.Layout
import Writz.Node.Digits
import Writz.Relayer.Proofs.CctpJobs
import Writz.Relayer.Cctp.System
import Writz.Relayer.Cctp.Service
import Writz.Relayer.Cctp.Store
import Writz.Relayer.Cctp.Message
import Writz.Relayer.Proofs.AllOrNothing
import Writz.Relayer.Proofs.Swap
import Writz.SpvTypes.Proofs.Scan
import Writz.BitcoinSpv.Proofs.Position
import Writz.Util.MerklePath
import Writz.Bitcoin.Compact
import Writz.BitcoinSpv.Proofs.Compact
import Writz.Relayer.Faucet.Deployment
import Writz.Relayer.Proofs.Coins
import Writz.Relayer.Proofs.Payments
import Writz.Relayer.Faucet.System
import Writz.Relayer.Faucet.Service
import Writz.BitcoinScript.Payment
import Writz.Relayer.Bitcoin.Esplora
import Writz.Frontend.Proofs.Mirror
import Writz.Frontend.Oracle
import Writz.Frontend.WritzLend
import Writz.Relayer.Proofs.Following
import Writz.Relayer.Proofs.Watcher
import Writz.Relayer.Proofs.Completeness
import Writz.Relayer.Deployment
import Writz.Relayer.Proofs.CoSigning
import Writz.Relayer.Proofs.Rebuild
import Writz.Relayer.RepayWatcher.Poller
import Writz.Relayer.LendRebuild.Rebuild
import Writz.Relayer.Process
import Writz.Relayer.RepayWatcher.ReleaseStore
import Writz.Relayer.LendEvents.Decode
import Writz.Relayer.LendEvents.ArchiveFile
import Writz.Node.Number
import Writz.Util.Program
import Writz.Util.Json
import Writz.BitcoinScript.Proofs.Script
import Writz.BitcoinScript.Proofs.Spend
import Writz.BitcoinScript.Spend
import Writz.SpvTypes.Proofs.Spending
import Writz.Frontend.Address
import Writz.BitcoinScript.Script
import Writz.SpvTypes.Proofs.Script
import Writz.SpvTypes.Proofs.KeyProof
import Writz.BitcoinSpv.Proofs.Tree
import Writz.Lend.Proofs.Health
import Writz.Lend.Proofs.Custody
import Writz.Lend.Proofs.Checks
import Writz.Lend.Proofs.Lifecycle
import Writz.Lend.Proofs.Repricing
import Writz.Lend.Proofs.SupplyLedger
import Writz.Lend.Proofs.Events
import Writz.Lend.Proofs.Lenders
import Writz.Lend.Proofs.Interest
import Writz.Lend.Proofs.Deposit
import Writz.SpvTypes.Proofs.BtcParser
import Writz.Stack.Proofs.Exclusive
import Writz.Util.Registry
import Writz.BitcoinSpv.Deployment
import Writz.BitcoinSpv.Proofs.BestChain
import Writz.Util.Lineage
import Writz.Lend.Proofs.Drift
import Writz.Lend.Proofs.Exit
import Writz.Lend.Proofs.Borrowed
import Writz.Lend.Proofs.Solvency
import Writz.SpvTypes.Types
import Writz.SpvTypes.Script
import Writz.SpvTypes.KeyProof
import Writz.SpvTypes.BtcParser
import Writz.BitcoinSpv.Proofs.Inclusion
import Writz.Relayer.Proofs.PositionEvents
import Writz.Util.CoinSelection
import Writz.BitcoinScript.Proofs.Payment
import Writz.Frontend.EmbeddedKey
import Writz.Frontend.Proofs.EmbeddedKey
import Writz.BitcoinScript.Keys
import Writz.BitcoinScript.Proofs.Keys
import Writz.Node.Grouping
import Writz.Frontend.UsdcAmount
import Writz.Frontend.Proofs.UsdcAmount
import Writz.Node.Grouping
import Writz.Util.Regex
import Writz.Frontend.Proofs.UsdcAmount
import Writz.Node.Promise
import Writz.Relayer.AccountLock
import Writz.Relayer.Proofs.AccountLock
import Writz.Relayer.Proofs.AccountLock
import Writz.Relayer.ProofCache
import Writz.Util.Recency
import Writz.Relayer.Proofs.ProofCache
import Writz.Relayer.Proofs.CctpEffects
import Writz.Relayer.Proofs.CctpSteps
import Writz.Relayer.Proofs.CctpRelay
import Writz.BitcoinSpv.Proofs.Follow
import Writz.Relayer.HeaderSync
import Writz.Relayer.Proofs.HeaderSync
import Writz.Relayer.Bitcoin.Spv
import Writz.Relayer.ProofRoute
import Writz.Relayer.Proofs.ProofRoute
import Writz.Util.JsonText
import Writz.Relayer.Proofs.ArchiveRoundTrip
import Writz.Lend.Proofs.LenderValue
import Writz.Lend.Proofs.Authority
import Writz.BitcoinSpv.Proofs.Stable
import Writz.PaymentCheck.Proofs.Receipts
