import Eva01.Lib.Runs
import Eva01.Scheduler.Tasks
import Eva01.IOManager.FdContext
import Eva01.IOManager.Slots
import Eva01.IOManager.Pending
import Eva01.IOManager.Epoll
import Eva01.Lib.OrderedSet
import Eva01.Timer
import Eva01.Runtime.State
import Eva01.Runtime.Step
import Eva01.Runtime.Inversion
import Eva01.Runtime.Tokens
import Eva01.Runtime.Ownership
import Eva01.Runtime.Board
import Eva01.Runtime.Refines
import Eva01.Runtime.Once
import Eva01.Runtime.Affinity
import Eva01.Runtime.Drain
import Eva01.Runtime.Wakeup
import Eva01.Runtime.Calls
import Eva01.Runtime.Timeout
import Eva01.Timer.Calls
import Eva01.Timer.Cancel
import Eva01.Timer.Recurring
import Eva01.Runtime.Oversleep
import Eva01.IOManager.Table
import Eva01.Hook.FdManager
import Eva01.Lib.Interact
import Eva01.Hook.Calls
import Eva01.Hook.Transparent
import Eva01.Hook.PassThrough
import Eva01.Hook.Kernel
import Eva01.Hook.UserMode
import Eva01.Hook.Nonblocking
import Eva01.Runtime.Recycle
import Eva01.Timer.Expire
import Eva01.IOManager.Failure
import Eva01.Log.Formatter
import Eva01.Fiber.Segments
import Eva01.Hook.Objects
import Eva01.Hook.Served
import Eva01.Hook.Blocking
import Eva01.Hook.Sleeps
import Eva01.Hook.SocketTimeout
import Eva01.Lib.CString
import Eva01.Log.Items
import Eva01.Mutex.Guards
import Eva01.Mutex.Owner
import Eva01.Log.Logger
import Eva01.Log.Malformed
import Eva01.Hook.FdMap
import Eva01.Fiber.Done
import Eva01.Lib.LockOrder
import Eva01.Locks
import Eva01.Runtime.Fifo
import Eva01.Runtime.KeepAlive
import Eva01.Lib.Held
import Eva01.Log.Concurrent
import Eva01.Scheduler.Lifecycle
import Eva01.Fiber.Lifetime
import Eva01.Fiber.Abandoned
import Eva01.Runtime.NotEarly
import Eva01.Runtime.StopReturns
