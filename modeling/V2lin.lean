import V2lin.Threads.Machine
import V2lin.Threads.Locks
import V2lin.Sem.Control
import V2lin.Task.SchedLock
import V2lin.Sem.Code
import V2lin.Sem.Locks
import V2lin.Sem.Pended
import V2lin.Task.Arrival
import V2lin.Sem.Tokens
import V2lin.Sem.Mutex
import V2lin.Queue.Code
import V2lin.Ring.Circle
import V2lin.Queue.Extent
import V2lin.Queue.Fields
import V2lin.Task.Waiting
import V2lin.Queue.Pended
import V2lin.Barging
import V2lin.Queue.Locks
import V2lin.Queue.Messages
import V2lin.Queue.Deque
import V2lin.Queue.Refines
import V2lin.Queue.Discipline
import V2lin.Threads.Wakeups
import V2lin.Queue.Wakeups
import V2lin.Sem.Wakeups
import V2lin.Sched.Code
import V2lin.Sched.Locker
import V2lin.TaskLib.Control
import V2lin.TaskLib.Code
import V2lin.TaskLib.Steps
import V2lin.TaskLib.Locked
import V2lin.TaskLib.Sound
import V2lin.TaskLib.Protection
import V2lin.TaskLib.Deletion
import V2lin.TaskLib.Handshake
import V2lin.Kill.Code
import V2lin.TaskLib.Closing
import V2lin.Kill.Steps
import V2lin.Kill.Sound
import V2lin.Kill.Lists
import V2lin.Kill.Terminated
import V2lin.LockOrder
import V2lin.Queue.Vacated
import V2lin.Sem.Deletion
import V2lin.Lists.Walk
import V2lin.Restart.Code
import V2lin.Restart.Served
import V2lin.Sched.Wakeups
import V2lin.Watchdog.Timing
import V2lin.Lifecycle.Balance
import V2lin.Lifecycle.Calls
import V2lin.Lifecycle.Handles
import V2lin.Lifecycle.OwnPriority
import V2lin.TaskLib.Ids
import V2lin.Blocked.Code
import V2lin.Blocked.Settled
import V2lin.Sem.Flush
import V2lin.Arith.Words
import V2lin.Queue.Alloc
import V2lin.Task.Translate
import V2lin.Timeouts.Clock
import V2lin.Timeouts.Loops
import V2lin.Lifecycle.Alone
import V2lin.Lifecycle.SetPriority
import V2lin.Lifecycle.Spawn
import V2lin.Queue.Lookup
import V2lin.Registries
import V2lin.Sem.Binary
import V2lin.Sem.Owner
import V2lin.Sem.Retired
import V2lin.Queue.Drains
import V2lin.Task.Pointers
import V2lin.Queue.Confined
import V2lin.Sem.Places
import V2lin.Queue.Delivery
import V2lin.Watchdog.Service
import V2lin.Sem.Progress
import V2lin.Queue.Progress
import V2lin.Watchdog.Progress
import V2lin.Sched.Service
import V2lin.Lists.Behind
import V2lin.Lifecycle.Removal
import V2lin.Lifecycle.Policy
import V2lin.Lifecycle.Ownership
import V2lin.Lifecycle.Blocks
import V2lin.Lists.Readers
import V2lin.TaskList.Code
import V2lin.TaskList.Steps
import V2lin.TaskList.Ways
import V2lin.TaskList.Lookups
import V2lin.TaskList.OneStep
