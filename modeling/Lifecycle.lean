import Lifecycle.Host.Script
import Lifecycle.Json.Domain
import Lifecycle.Json.Parser
import Lifecycle.Json.Printer
import Lifecycle.Main
import Lifecycle.PidMap.Bits
import Lifecycle.Session.Script
import Lifecycle.Session.Syscall
import Lifecycle.TraceId
import Lifecycle.Workbench
import Lifecycle.Workload
import Lifecycle.Proofs.PidMap.Spec
import Lifecycle.Proofs.PidMap.Drain
import Lifecycle.Proofs.PidMap.Live
import Lifecycle.Proofs.PidMap.Refinement
import Lifecycle.Proofs.Host
import Lifecycle.Proofs.Kernel.Performing
import Lifecycle.Proofs.Kernel.Exiting
import Lifecycle.Proofs.Kernel.Forking
import Lifecycle.Proofs.Kernel.Waiting
import Lifecycle.Proofs.Kernel.Resuming
import Lifecycle.Proofs.Kernel.Downtime
import Lifecycle.Proofs.Kernel.Tasks
import Lifecycle.Proofs.Kernel.Intact
import Lifecycle.Proofs.Kernel.Lasting
import Lifecycle.Proofs.Kernel.Sane
import Lifecycle.Proofs.Kernel.Unwinding
import Lifecycle.Proofs.Kernel.Thinning
import Lifecycle.Proofs.Kernel.Evolving
import Lifecycle.Proofs.Kernel.Perishing
import Lifecycle.Proofs.Kernel.Staffing
import Lifecycle.Proofs.Kernel.Closing
import Lifecycle.Proofs.Kernel.Covering
import Lifecycle.Proofs.Session.Performing
import Lifecycle.Proofs.Session.Invariant
import Lifecycle.Proofs.Session.Acting
import Lifecycle.Proofs.Session.Waking
import Lifecycle.Proofs.Session.Running
import Lifecycle.Proofs.Session.Conservation
import Lifecycle.Proofs.Session.Delivery
import Lifecycle.Proofs.Session.Tree
import Lifecycle.Proofs.Session.Authority
import Lifecycle.Proofs.Session.Turning
import Lifecycle.Proofs.Session.Wakeup
import Lifecycle.Proofs.Session.Settling
import Lifecycle.Proofs.Session.Stranding
import Lifecycle.Proofs.Session.Firm
import Lifecycle.Proofs.Session.Atomic
import Lifecycle.Proofs.Session.Arriving
import Lifecycle.Proofs.Session.Siblings
import Lifecycle.Proofs.Session.Perishing
import Lifecycle.Proofs.Session.Staffing
import Lifecycle.Proofs.Session.Tallying
import Lifecycle.Proofs.Session.Reckoning
import Lifecycle.Proofs.Session.Emptying
import Lifecycle.Proofs.Session.Closing
import Lifecycle.Proofs.Session.Checks
import Lifecycle.Proofs.Kernel.Entries
import Lifecycle.Proofs.Kernel.Departing
import Lifecycle.Proofs.Kernel.Hale
import Lifecycle.Proofs.Kernel.Leaving
import Lifecycle.Proofs.Kernel.Commuting
import Lifecycle.Proofs.Session.Hale
import Lifecycle.Proofs.Session.Leaving
import Lifecycle.Proofs.Session.Commuting
import Lifecycle.Proofs.Kernel.Ascending
import Lifecycle.Proofs.Session.Career
import Lifecycle.Proofs.Kernel.Spacing
import Lifecycle.Proofs.Host.Bookkeeping
import Lifecycle.Proofs.Kernel.Begetting
import Lifecycle.Proofs.Session.Begetting
import Lifecycle.Proofs.Kernel.Parting
import Lifecycle.Proofs.Session.Parting
import Lifecycle.Proofs.Kernel.Extent
import Lifecycle.Proofs.Session.Calm
import Lifecycle.Proofs.Kernel.Answering
import Lifecycle.Proofs.Session.Answering
import Lifecycle.Proofs.Kernel.Awaiting
import Lifecycle.Proofs.Session.Awaiting
import Lifecycle.Proofs.Kernel.Allotting
import Lifecycle.Proofs.Session.Allotting
import Lifecycle.Proofs.Session.Returning
import Lifecycle.Proofs.Workload.Programs
import Lifecycle.Proofs.Workload.Tending
import Lifecycle.Proofs.Workload.Ending
import Lifecycle.Proofs.Text
import Lifecycle.Proofs.Config
import Lifecycle.Proofs.ExitStatus
import Lifecycle.Proofs.Json.Scalars
import Lifecycle.Proofs.Json.Values
import Lifecycle.Proofs.Json.Domain
import Lifecycle.Proofs.Host.Joining
