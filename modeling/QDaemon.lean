import QDaemon.Atomic.RwSpinlock
import QDaemon.ThreadPool.MpmcRing.Correctness
import QDaemon.ThreadPool.WsDeque.Correctness
import QDaemon.ThreadPool.Shutdown.Correctness
import QDaemon.ThreadPool.Pool.Correctness
import QDaemon.ThreadPool.Future.Final
import QDaemon.ThreadPool.Future.Refcount
import QDaemon.ThreadPool.Nested.Correctness
import QDaemon.Channel.Wakeup
import QDaemon.Channel.Blocking
import QDaemon.Channel.Overflow.Correctness
import QDaemon.WorkQueue.Correctness
import QDaemon.WorkQueue.Cancel.Correctness
import QDaemon.Ipc.Agreement
import QDaemon.Ipc.ClientMessage
import QDaemon.Ipc.EdgeTriggered
import QDaemon.Ipc.Sending
import QDaemon.Ipc.Services
import QDaemon.Ipc.SharedRing.Correctness
import QDaemon.Hash.Correctness
import QDaemon.Timer.WellFormed
import QDaemon.Timer.Sets
import QDaemon.Timer.OneShot.Correctness
import QDaemon.Timer.Callbacks.Control
import QDaemon.Timer.Callbacks.NextTimeout
import QDaemon.Memory.Heap.Correctness
import QDaemon.EventLoop.Correctness
import QDaemon.Aio.Epoll.Registrations
import QDaemon.Aio.Epoll.Results
import QDaemon.Configuration.RoundTrip
import QDaemon.Configuration.FileLoad
import QDaemon.Log.Deadlock
import QDaemon.Log.Rotation
import QDaemon.Log.Buffering
import QDaemon.Cint.Evaluation.Arithmetic
import QDaemon.Cint.Evaluation.Flow
import QDaemon.Cint.Evaluation.Functions
import QDaemon.Cint.Evaluation.Logic
import QDaemon.Cint.Evaluation.Ownership
import QDaemon.Cint.Shell
import QDaemon.Dhcp.Options
import QDaemon.Dhcp.Reliable
import QDaemon.Daemon.Responses
import QDaemon.Daemon.Signals
