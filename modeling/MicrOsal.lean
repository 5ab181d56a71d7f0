import MicrOsal.StreamBuffer.Fifo
import MicrOsal.StreamBuffer.Progress
import MicrOsal.MessageBuffer.Indices
import MicrOsal.MessageBuffer.Fifo
import MicrOsal.MessageBuffer.Admission
import MicrOsal.DelayableWork.Model
import MicrOsal.DelayableWork.Tokens
import MicrOsal.DelayableWork.Times
import MicrOsal.DelayableWork.History
import MicrOsal.DelayableWork.Once
import MicrOsal.DelayableWork.Arming
import MicrOsal.EventFlags.Model
import MicrOsal.EventFlags.Table
import MicrOsal.EventFlags.Wakeup
import MicrOsal.EventFlags.Outcome
import MicrOsal.Lib.Tally
import MicrOsal.ZeroCopy.Pool
import MicrOsal.ZeroCopy.Model
import MicrOsal.ZeroCopy.Slots
import MicrOsal.ZeroCopy.Accounting
import MicrOsal.ZeroCopy.Topics
import MicrOsal.ZeroCopy.Balance
import MicrOsal.Condvar.Model
import MicrOsal.Condvar.Slots
import MicrOsal.Condvar.Tokens
import MicrOsal.Condvar.Notify
import MicrOsal.Condvar.Predicate
import MicrOsal.Barrier.Model
import MicrOsal.Barrier.Rounds
import MicrOsal.RwLock.Exclusion
import MicrOsal.Lib.JobHistory
import MicrOsal.Lib.Ring
import MicrOsal.WorkQueue.Emulated
import MicrOsal.WorkQueue.Tokens
import MicrOsal.WorkQueue.Pthread
import MicrOsal.WorkQueue.Flush
import MicrOsal.WorkQueue.Equivalence
import MicrOsal.DelayableWork.CancelAll
import MicrOsal.WorkQueue.Nuttx
import MicrOsal.WorkQueue.NuttxSlots
import MicrOsal.MemoryPool.Model
import MicrOsal.MemoryPool.Blocks
import MicrOsal.RingBuffer.Model
import MicrOsal.RingBuffer.Fifo
import MicrOsal.RingBuffer.Calls
import MicrOsal.Lib.SkipCounter
import MicrOsal.Signal.Delivery
import MicrOsal.Registry.Dispatch
import MicrOsal.Registry.Lifetime
import MicrOsal.ZeroCopy.Delivery
import MicrOsal.ZeroCopy.Gauges
import MicrOsal.Lib.LinkedList
import MicrOsal.Stop.Callbacks
import MicrOsal.Stop.Cleanup
import MicrOsal.Creation.Model
import MicrOsal.Creation.Unwind
import MicrOsal.MessageBuffer.Wakeup
import MicrOsal.Notification.Model
import MicrOsal.Notification.Refinement
import MicrOsal.Notification.Waits
import MicrOsal.Semaphore.Bounded
import MicrOsal.ThreadLocal.Keys
import MicrOsal.ThreadLocal.Values
import MicrOsal.WaitSet.Model
import MicrOsal.WaitSet.Reports
import MicrOsal.Clock
import MicrOsal.Queue.Fifo
import MicrOsal.Queue.Wakeup
import MicrOsal.Timer.Delayable
import MicrOsal.ChibiosQueue.Fifo
import MicrOsal.FreertosThread.Lifecycle
import MicrOsal.GatedTimer.Alive
import MicrOsal.GatedTimer.Calls
import MicrOsal.GatedTimer.Failing
import MicrOsal.NuttxQueue.Fifo
import MicrOsal.NuttxQueue.Refinement
import MicrOsal.NuttxQueue.Wakeup
import MicrOsal.ThreadxTimer.Failing
import MicrOsal.Timer.Failing
import MicrOsal.TimerPeriod.Account
import MicrOsal.TimerPeriod.Freertos
import MicrOsal.TimerPeriod.FreertosOnce
import MicrOsal.TimerPeriod.Linux
import MicrOsal.TimerPeriod.LinuxOnce
import MicrOsal.TimerPeriod.NoExtra
import MicrOsal.NuttxCondvar.Delivery
import MicrOsal.NuttxCondvar.Notified
import MicrOsal.HostedWait.Awake
import MicrOsal.ZephyrWq.Accounted
import MicrOsal.CDelayable.Expiry
import MicrOsal.CWait.Deadline
import MicrOsal.CWait.Flush
import MicrOsal.Clock.Monotonic
import MicrOsal.CmsisQueue.Model
import MicrOsal.CmsisQueue.Moves
import MicrOsal.CmsisQueue.Reservation
import MicrOsal.CmsisQueue.WouldBlock
import MicrOsal.Condvar.Timed
import MicrOsal.DelayableWork.Period
import MicrOsal.EventFlags.Timeout
import MicrOsal.HostedQueue.Deadline
import MicrOsal.Lib.TickWait
import MicrOsal.MessageBuffer.Query
import MicrOsal.TimedLoops.Buffers
import MicrOsal.TimedLoops.Locks
import MicrOsal.TimedLoops.Waits
import MicrOsal.BareMetalTimer.Follows
import MicrOsal.Clock.CDeadlines
import MicrOsal.Clock.Conversions
import MicrOsal.Clock.Sleep
import MicrOsal.CmsisQueue.Elapsed
import MicrOsal.HostedQueue.AbsTimespec
import MicrOsal.HostedQueue.NuttxDeadline
import MicrOsal.Priority
import MicrOsal.StreamBuffer.Query
import MicrOsal.FreertosTimer.Commands
import MicrOsal.FreertosTimer.Teardown
import MicrOsal.QnxTimer.Account
import MicrOsal.QnxTimer.Punctual
import MicrOsal.WaitReady.Model
import MicrOsal.WaitReady.Source
import MicrOsal.WaitReady.Wakeup
import MicrOsal.BareMetalTasks.Accounted
import MicrOsal.BareMetalTasks.RoundRobin
import MicrOsal.CDelayable.Callbacks
import MicrOsal.CDelayable.Refinement
