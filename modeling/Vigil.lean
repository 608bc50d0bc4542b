import Vigil.Main
import Vigil.Proofs.Condition.Rewriting
import Vigil.Proofs.Expression.Derivation
import Vigil.Proofs.Runner.Episodes
import Vigil.Proofs.Store.Calls
import Vigil.Store.Faults
import Vigil.Store.Tables.Overwrite
import Vigil.Text.Case
import Vigil.Proofs.Series.Buckets
import Vigil.Proofs.Series.Times
import Vigil.Proofs.Named
import Vigil.Proofs.Series.Alignment
import Vigil.Proofs.Series.Trimming
import Vigil.Proofs.Alarm.Definition
import Vigil.Proofs.Series.Windows
import Vigil.Proofs.Store.Points
import Vigil.Proofs.Runner.Windows
import Vigil.Proofs.Store.Guards
import Vigil.Proofs.Runner.Races
import Vigil.Proofs.Series.Steady
import Vigil.Proofs.Series.Slots
import Vigil.Proofs.Store.Measurements
import Vigil.Proofs.Series.Filled
import Vigil.Proofs.Runner.Evaluable
import Vigil.Proofs.Uuid
import Vigil.Proofs.Alarm.Document
import Vigil.Proofs.Store.Interchange
import Vigil.Proofs.Store.Groups
import Vigil.Proofs.Store.Readings
import Vigil.Proofs.Store.Queries
import Vigil.Proofs.Runner.Deeds
import Vigil.Proofs.Runner.Orders
import Vigil.Proofs.Scheduler.Moves
import Vigil.Proofs.Scheduler.Clocked
import Vigil.Proofs.Scheduler.Gating
import Vigil.Proofs.Runner.Contained
import Vigil.Proofs.Condition.Grouping
import Vigil.Proofs.Condition.Variables
import Vigil.Proofs.Store.Capacity
import Vigil.Proofs.Store.Tagged
import Vigil.Proofs.Delivery.Document
import Vigil.Proofs.Store.Rounded
import Vigil.Proofs.Store.Readback
import Vigil.Proofs.Time.Calendar
import Vigil.Proofs.Time.Stamps
import Vigil.Proofs.Alarm.Copies
import Vigil.Proofs.Debounce
import Vigil.Proofs.Runner.Counts
import Vigil.Proofs.Store.Repeated
import Vigil.Proofs.Store.Outputs
import Vigil.Proofs.Series.Lookback
import Vigil.Proofs.Series.Places
import Vigil.Proofs.Condition.Printed
import Vigil.Proofs.Runner.Dispatching
import Vigil.Proofs.Expression.Kinds
import Vigil.Proofs.Expression.Prefixes
import Vigil.Proofs.Series.Offsets
import Vigil.Proofs.Series.Coverage
import Vigil.Proofs.Series.Planning
import Vigil.Proofs.Expression.Asking
import Vigil.Proofs.Series.Policies
import Vigil.Proofs.Store.Due
import Vigil.Proofs.Store.Membership
import Vigil.Proofs.Store.Pages
import Vigil.Proofs.Condition.Identifiers
import Vigil.Proofs.Series.Partition
