import MobileMoney.Contracts.Escrow.Runs
import MobileMoney.Contracts.Escrow.Migration
import MobileMoney.Contracts.Htlc.Custody
import MobileMoney.Contracts.MultiSig
import MobileMoney.Contracts.Bridge.Settlement
import MobileMoney.Contracts.FeePool.Interference
import MobileMoney.Contracts.QuickLendX.Residue
import MobileMoney.Contracts.QuickLendX.Splitting
import MobileMoney.Contracts.Router.Routes
import MobileMoney.Contracts.Router.Search
import MobileMoney.Contracts.SwapRouter.Program
import MobileMoney.Contracts.SwapRouter.Quotes
import MobileMoney.Contracts.Oracle.Integrity
import MobileMoney.Contracts.Oracle.Spread
import MobileMoney.Contracts.ProofOfReserve.Oversight
import MobileMoney.Contracts.Rebalancer.Safety
import MobileMoney.Contracts.Timelock.Runs
import MobileMoney.Contracts.Timelock.Drain
import MobileMoney.Ledger.Conservation
import MobileMoney.Ledger.TrialBalance
import MobileMoney.Ledger.Pages
import MobileMoney.Ledger.Acceptance
import MobileMoney.Wallet.Updates
import MobileMoney.Queue.Worker.Payments
import MobileMoney.Queue.Worker.Abandonment
import MobileMoney.Queue.Status
import MobileMoney.Queue.Payouts.Submissions
import MobileMoney.Queue.Refunds
import MobileMoney.Vault.Conservation
import MobileMoney.Idempotency.Lock
import MobileMoney.Sep24.Lifecycle
import MobileMoney.Sep31.Accounting
import MobileMoney.Subscriptions.Charges
import MobileMoney.Subscriptions.Retries
import MobileMoney.Subscriptions.Pauses
import MobileMoney.Channels.Exclusivity
import MobileMoney.Channels.Wakeups
import MobileMoney.Stellar.Pool
import MobileMoney.Stellar.Payments
import MobileMoney.Outbox.Effects
import MobileMoney.Outbox.Claimable
import MobileMoney.Sep38.Accounting
import MobileMoney.Sep38.Lookup
import MobileMoney.Ingest.Isolation
import MobileMoney.KycUpgrade.Lifecycle
import MobileMoney.Fees.Resolution
import MobileMoney.Disputes.Consistency
import MobileMoney.Disputes.Settlements
import MobileMoney.Custody.DailyCap
import MobileMoney.Limits
import MobileMoney.Queue.Outbox.Enqueues
import MobileMoney.Queue.Pauses.Wakeups
import MobileMoney.Queue.Pauses.Jobs
import MobileMoney.ColdVault
import MobileMoney.Sep30.Keys
import MobileMoney.Sep30.Approvals
import MobileMoney.Sep30.Sessions
import MobileMoney.EventSync.Passes
import MobileMoney.Settlement
import MobileMoney.Aml.Holds
import MobileMoney.Aml.Velocity.Enforcement
import MobileMoney.Sanctions.Screening
import MobileMoney.Auth.Grace
import MobileMoney.Auth.Rotation
import MobileMoney.TwoFactor.Guesses
import MobileMoney.TwoFactor.Gate
import MobileMoney.Batches
import MobileMoney.Stellar.Accounts.Program
import MobileMoney.Stellar.Accounts.Releases
import MobileMoney.Reconciliation.Partition
import MobileMoney.Reconciliation.Program
import MobileMoney.Reconciliation.Agreement
import MobileMoney.Reconciliation.Window
import MobileMoney.Reconciliation.Completion
import MobileMoney.Reconciliation.Mpesa.Soundness
import MobileMoney.EventStream.Program
import MobileMoney.Library.Numbered
import MobileMoney.EventStream.Replay
import MobileMoney.LayeredCache.Program
import MobileMoney.LayeredCache.Coherence
import MobileMoney.Fees.TimeWindow
import MobileMoney.Aml.Rules
import MobileMoney.Contracts.FeeTier.Tables
import MobileMoney.Fees.Configuration
import MobileMoney.Fees.Distribution
import MobileMoney.Fees.Vip
import MobileMoney.Library.Entries
import MobileMoney.Library.Json
import MobileMoney.Library.JsonReading
import MobileMoney.Redaction
import MobileMoney.Transactions.Metadata
import MobileMoney.Transactions.Listing
import MobileMoney.Encryption.Program
import MobileMoney.Encryption.Rotation
import MobileMoney.Library.EditDistance
import MobileMoney.Sanctions.Distance
import MobileMoney.Library.TokenBucket
import MobileMoney.IngestRateLimit
import MobileMoney.Library.PrimeOrder
import MobileMoney.Zk.Program
import MobileMoney.Zk.Range
import MobileMoney.Zk.Sigma
import MobileMoney.Zk.Statements
import MobileMoney.Sep24.SignedUrl
import MobileMoney.Currency.RoundTrip
import MobileMoney.Sanctions.Streaming
import MobileMoney.Contracts.Faucet
import MobileMoney.Contracts.BatchPayout
import MobileMoney.Sanctions.Similarity
import MobileMoney.Stellar.HorizonPool
import MobileMoney.Encryption.Envelope
import MobileMoney.Contracts.Bridge.Blacklist
import MobileMoney.Ledger.Balances
import MobileMoney.Transactions.History
