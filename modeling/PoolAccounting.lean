import PoolAccounting.Config
import PoolAccounting.Decimal.Reading
import PoolAccounting.Exchange.Pool
import PoolAccounting.Ledger
import PoolAccounting.Unchecked
import PoolAccounting.Proofs.Ledger.Column
import PoolAccounting.Proofs.Staking.PerToken
import PoolAccounting.Proofs.Ledger.Postings
import PoolAccounting.Proofs.Ledger.Principal
import PoolAccounting.Proofs.Ledger.Solvency
import PoolAccounting.Proofs.Regularity.Arithmetic
import PoolAccounting.Proofs.Regularity.Operations
import PoolAccounting.Proofs.Ledger.Settlement
import PoolAccounting.Proofs.Ledger.Entitlement
import PoolAccounting.Proofs.Ledger.FairShare
import PoolAccounting.Proofs.Exchange.Pricing
import PoolAccounting.Proofs.Exchange.Quotes
import PoolAccounting.Proofs.Exchange.Trades
import PoolAccounting.Proofs.Exchange.Shares
import PoolAccounting.Proofs.Exchange.Moves
import PoolAccounting.Proofs.Exchange.Worth
import PoolAccounting.Proofs.Exchange.Backing
import PoolAccounting.Proofs.Exchange.Splitting
import PoolAccounting.Proofs.Table.Traversal
import PoolAccounting.Proofs.Table.NameSets
import PoolAccounting.Proofs.Ledger.Withdrawal
import PoolAccounting.Proofs.Fees.Distribution
import PoolAccounting.Proofs.Ledger.FeeConservation
import PoolAccounting.Proofs.Staking.Pending
import PoolAccounting.Proofs.Staking.Refresh
import PoolAccounting.Proofs.Ledger.Neutrality
import PoolAccounting.Proofs.Exchange.Dilution
import PoolAccounting.Proofs.Table.Erasure
import PoolAccounting.Proofs.Staking.Isolation
import PoolAccounting.Proofs.Ledger.Isolation
import PoolAccounting.Proofs.Staking.CaughtUp
import PoolAccounting.Proofs.Staking.Claims
import PoolAccounting.Proofs.Staking.Dust
import PoolAccounting.Proofs.Ledger.Commuting
import PoolAccounting.Proofs.Staking.Schedule
import PoolAccounting.Proofs.Ledger.Totals
import PoolAccounting.Proofs.Exchange.Lock
import PoolAccounting.Proofs.Ledger.Clock
import PoolAccounting.Proofs.Domain
import PoolAccounting.Proofs.Ledger.Cap
import PoolAccounting.Proofs.Ledger.FirstStake
import PoolAccounting.Proofs.Exchange.Limits
import PoolAccounting.Proofs.Exchange.Deposits
import PoolAccounting.Proofs.Regularity.Exchange
import PoolAccounting.Proofs.Proportion
import PoolAccounting.Proofs.Fees.Batch
import PoolAccounting.Proofs.Ledger.Inert
import PoolAccounting.Proofs.Config.Sections
import PoolAccounting.Proofs.Config.Acceptance
import PoolAccounting.Proofs.Ledger.FeeTokens
import PoolAccounting.Proofs.Quotients
