import Pman.Lib.TransitionSystem
import Pman.Lib.ContendedLock
import Pman.Futex.Syscall
import Pman.Futex.Mutex
import Pman.Futex.RecursiveMutex
import Pman.Futex.SharedMutex
import Pman.Futex.StuckWaiter
import Pman.Futex.RecursiveOwner
import Pman.Lib.Gate
import Pman.Futex.Once
import Pman.Futex.Latch
import Pman.Lib.Census
import Pman.Lib.PermitPool
import Pman.Futex.Semaphore
import Pman.Futex.SharedSemaphore
import Pman.Async.Channel
import Pman.Lib.FifoLedger
import Pman.Async.ChannelFifo
import Pman.Async.ChannelReceive
import Pman.Async.ChannelSend
import Pman.Lib.Exploration
import Pman.Async.Actor
import Pman.Async.ActorCascade
import Pman.Async.ActorNames
import Pman.Async.ActorOwners
import Pman.Async.TimerLoop
import Pman.Lib.LockProgram
import Pman.Timer.Scheduler
import Pman.Timer.SelfDeadlock
import Pman.Futex.CondVar
import Pman.Futex.RateLimiter
import Pman.Futex.PausableThread
import Pman.Futex.ConditionWait
import Pman.Lib.ReadersWriter
import Pman.Futex.RwMutex
import Pman.Futex.RwMutexSleep
import Pman.Async.Mutex
import Pman.Async.RwLock
import Pman.Async.Semaphore
import Pman.Async.TimerOrder
import Pman.Async.ChannelThreads
import Pman.Pool.EnhancedThreadPool
import Pman.Pool.WaitIdle
import Pman.Pool.Wakeups
import Pman.Process.Handle
import Pman.Process.Supervisor
import Pman.Process.Signals
import Pman.Lib.Batches
import Pman.Async.EpollDescriptors
import Pman.Async.EpollReports
import Pman.Async.EpollLoop
import Pman.Timer.WheelSlots
import Pman.Lib.Tally
import Pman.Lib.Roster
import Pman.Timer.WheelStock
import Pman.Timer.Conservation
import Pman.Timer.WheelCancel
import Pman.Timer.WheelThread
import Pman.Timer.PeriodicTasks
import Pman.Lib.Recorder
import Pman.Lib.Outline
import Pman.Process.Outline
import Pman.Process.Ledger
import Pman.Process.RestartBudget
import Pman.Process.RestartDelay
import Pman.Process.Stopped
import Pman.Process.Reaping
import Pman.Process.StartProcess
import Pman.Process.PidMap
import Pman.Process.Status
import Pman.Process.LaunchFailure
import Pman.Lib.History
import Pman.Lib.TokenBucket
import Pman.Lib.SlidingWindow
import Pman.Futex.Regions
import Pman.Futex.TokenBucketRate
import Pman.Futex.SlidingWindowRate
import Pman.Pool.TaskFlow
import Pman.Pool.PriorityOrder
import Pman.Pool.Metrics
import Pman.Pool.Handles
import Pman.Pool.LockOrder
import Pman.Pool.ThreadPool
import Pman.Lib.Producer
import Pman.Async.Stream
import Pman.Async.StreamFollows
import Pman.Async.StreamPipeline
import Pman.Lib.Words
import Pman.Cron.Expression
import Pman.Cron.Parse
import Pman.Cron.Print
import Pman.Cron.Grammar
import Pman.Lib.Calendar
import Pman.Lib.SkipSearch
import Pman.Cron.NextAfter
import Pman.Cron.NextTime
import Pman.Cron.Builders
import Pman.Cron.Dispatch
import Pman.Futex.WaitStages
import Pman.Futex.Notifications
import Pman.Process.Health
import Pman.Process.Callbacks
import Pman.Process.StatLine
import Pman.Async.Combinators
import Pman.Async.Timeout
import Pman.Async.ChannelInline
import Pman.Async.ChannelHandles
import Pman.Process.Redirects
import Pman.Process.WaitFor
import Pman.Thread.TaskScope
import Pman.Thread.Topology
import Pman.Thread.CpuList
