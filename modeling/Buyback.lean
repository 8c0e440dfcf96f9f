import Buyback.Custody.Binding
import Buyback.Custody.Derivation
import Buyback.Custody.Rotation
import Buyback.Process.Funding
import Buyback.Record.Paths
import Buyback.Rpc.Failover
import Buyback.Rpc.Fee
import Buyback.Rpc.Stake
import Buyback.Run.Books
import Buyback.Run.Budgets
import Buyback.Run.Confined
import Buyback.Run.Emptied
import Buyback.Run.Expiry
import Buyback.Run.Failures
import Buyback.Run.FeeReserve
import Buyback.Run.Forward
import Buyback.Run.Paid
import Buyback.Run.Quarantine
import Buyback.Run.Recovered
import Buyback.Run.Reopened
import Buyback.Run.Resting
import Buyback.Run.Served
import Buyback.Run.Turns
import Buyback.Run.Understood
import Buyback.Run.Unsigned
import Buyback.Run.Upgraded
import Buyback.Scan.Deposits
import Buyback.Scan.Pending
import Buyback.Store.Alike
import Buyback.Store.Crashes
import Buyback.Store.Ownership
import Buyback.Units.Amount
import Buyback.Units.Margin
