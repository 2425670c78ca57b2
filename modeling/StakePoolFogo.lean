import StakePoolFogo.Accounts
import StakePoolFogo.Authority
import StakePoolFogo.Clients
import StakePoolFogo.Confinement
import StakePoolFogo.Settlement
import StakePoolFogo.Solvency.Modes
import StakePoolFogo.Solvency.Status
import StakePoolFogo.FeeBounds
import StakePoolFogo.FeeLimit
import StakePoolFogo.JsLegacy.Addresses
import StakePoolFogo.Lib.Cells
import StakePoolFogo.ListShape
import StakePoolFogo.Preferred
import StakePoolFogo.Price
import StakePoolFogo.Priority
import StakePoolFogo.Unwrap
import StakePoolFogo.FeeDelay
import StakePoolFogo.Rounding
import StakePoolFogo.Py.Execution
import StakePoolFogo.JsLegacy.Metadata
import StakePoolFogo.JsLegacy.Withdrawal
import StakePoolFogo.Cli.Availability
import StakePoolFogo.SessionPaths
import StakePoolFogo.Prefunded
import StakePoolFogo.Cli.Execution
import StakePoolFogo.JsLegacy.Execution
import StakePoolFogo.BigVec.Retain
import StakePoolFogo.BigVec.Push
import StakePoolFogo.ListView
import StakePoolFogo.Withdrawable
import StakePoolFogo.LedgerWithdrawals
import StakePoolFogo.Solvency.Fallback
import StakePoolFogo.Freshness
import StakePoolFogo.Solvency.Merging
import StakePoolFogo.Solvency.Chain
import StakePoolFogo.Outdated
import StakePoolFogo.Solvency.EpochUpdate
import StakePoolFogo.Solvency.Value
