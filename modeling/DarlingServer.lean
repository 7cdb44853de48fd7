import DarlingServer.Stranding
import DarlingServer.Resumption
import DarlingServer.InterruptReturn
import DarlingServer.PushReply
import DarlingServer.Impersonation
import DarlingServer.Nesting
import DarlingServer.Checkout
import DarlingServer.Registry
import DarlingServer.Identity
import DarlingServer.Release
import DarlingServer.Exec
import DarlingServer.LockSafety
import DarlingServer.Timers
import DarlingServer.UserSuspension
import DarlingServer.Impersonators
import DarlingServer.MachPortKqchan
import DarlingServer.Tracking
import DarlingServer.Listening
import DarlingServer.Drain
import DarlingServer.Wrappers
import DarlingServer.Portability
import DarlingServer.WorkQueue
import DarlingServer.KernelAsync
import DarlingServer.Monitors
import DarlingServer.Outbox
import DarlingServer.Destruction
import DarlingServer.Messages
import DarlingServer.Sending
import DarlingServer.Deadlines
import DarlingServer.TryLock
import DarlingServer.PageRanges
import DarlingServer.VmCopy
import DarlingServer.Regions
import DarlingServer.SharedRemaps
import DarlingServer.Configuration
import DarlingServer.KqchanOpen
import DarlingServer.CallDescriptors
import DarlingServer.PickS2C
import DarlingServer.DeathLocks
import DarlingServer.WaitqWaiter
import DarlingServer.RegisterState
import DarlingServer.TreeMerge
import DarlingServer.MergedTree
import DarlingServer.StackPool
import DarlingServer.PsynchMutexRuns
