import Starrysky.Lib.Transition
import Starrysky.Lib.Reactive
import Starrysky.Lib.LinkRing
import Starrysky.Lib.BoundedDeque
import Starrysky.Lib.Split
import Starrysky.Lib.Hrtimer
import Starrysky.Lib.Cost
import Starrysky.Lib.DriverCore
import Starrysky.Lib.Lifetime
import Starrysky.Kqueue.ListHead
import Starrysky.Kqueue.Queue
import Starrysky.Kqueue.Invariant
import Starrysky.Kqueue.Refine
import Starrysky.Kqueue.Separation
import Starrysky.Kqueue.Mdrv
import Starrysky.Press.Device
import Starrysky.Press.Flag
import Starrysky.Press.LostEvent
import Starrysky.Press.OneReader
import Starrysky.Press.DoubleDelivery
import Starrysky.Press.WaitQueue
import Starrysky.Press.WakeUp
import Starrysky.Press.WaitRefine
import Starrysky.Miniature.MiniDevice
import Starrysky.Miniature.SharedTimer
import Starrysky.Miniature.Lifetime
import Starrysky.Miniature.Probe
import Starrysky.Miniature.Clients
import Starrysky.Miniature.ProbeWindow
import Starrysky.Miniature.Devices
import Starrysky.Miniature.Reached
import Starrysky.Miniature.Devres
import Starrysky.Interrupt.Driver
import Starrysky.Interrupt.Armed
import Starrysky.Interrupt.Forward
import Starrysky.Interrupt.Fasync
import Starrysky.Press.PollClient
import Starrysky.Press.EpollClient
import Starrysky.Misc.Gval
import Starrysky.Lib.MessageQueue
import Starrysky.Msgqueue.Instance
import Starrysky.Msgqueue.Serial
import Starrysky.Press.Calls
import Starrysky.Miniature.OneDevice
import Starrysky.Msgqueue.Concurrent
import Starrysky.Msgqueue.Delivery
import Starrysky.Kqueue.Offset
import Starrysky.Kqueue.Order
import Starrysky.Kqueue.Inverse
import Starrysky.Kqueue.Mirror
import Starrysky.Kqueue.Duty
import Starrysky.Lib.UserCopy
import Starrysky.Misc.Transfer
import Starrysky.Press.Faults
import Starrysky.Press.ReadBytes
import Starrysky.Misc.Sequential
import Starrysky.Misc.Mains
import Starrysky.Press.PrintedValue
import Starrysky.Lib.CString
import Starrysky.Lib.UserMsg
import Starrysky.Msgqueue.Buffer
import Starrysky.Msgqueue.Argument
import Starrysky.Msgqueue.Footprint
import Starrysky.Msgqueue.Processes
import Starrysky.Interrupt.Deadline
import Starrysky.Interrupt.Punctual
import Starrysky.Interrupt.Whole
import Starrysky.Interrupt.Timeout
import Starrysky.Interrupt.Completion
import Starrysky.Interrupt.Sigio
import Starrysky.Demo.Install
import Starrysky.Demo.Period
import Starrysky.Platform.Modules
import Starrysky.Platform.Registration
import Starrysky.Platform.Kthread
