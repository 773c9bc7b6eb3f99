import WindowFilter.Lib.Steps
import WindowFilter.Lib.Fifo
import WindowFilter.Lib.ShiftRegister
import WindowFilter.Lib.WindowSum
import WindowFilter.Lib.Interleaving
import WindowFilter.Lib.Buffer
import WindowFilter.Lib.Numeral
import WindowFilter.Lib.Heap
import WindowFilter.Lib.Sorted
import WindowFilter.Lib.Cursor
import WindowFilter.Lib.Links
import WindowFilter.Lib.Alarm
import WindowFilter.CInt
import WindowFilter.Common.IntToString
import WindowFilter.Window.Model
import WindowFilter.Window.Tracking
import WindowFilter.Window.Backlog
import WindowFilter.Kernel.Queue
import WindowFilter.Kernel.Model
import WindowFilter.Kernel.WakeUp
import WindowFilter.Kernel.Refinement
import WindowFilter.Kernel.PortMalloc
import WindowFilter.Lists.Model
import WindowFilter.Lists.Refinement
import WindowFilter.Scheduler.Ready
import WindowFilter.Scheduler.Events
import WindowFilter.Scheduler.Delayed
import WindowFilter.Scheduler.Model
import WindowFilter.Scheduler.Firmware
import WindowFilter.Scheduler.Inversion
import WindowFilter.Scheduler.Filed
import WindowFilter.Scheduler.Running
import WindowFilter.Scheduler.Time
import WindowFilter.Scheduler.Deadlines
import WindowFilter.Scheduler.Fairness
import WindowFilter.Scheduler.RunTime
import WindowFilter.Scheduler.Frame
import WindowFilter.Scheduler.Waiters
import WindowFilter.Queues.Model
import WindowFilter.Queues.Items
import WindowFilter.Queues.Fits
import WindowFilter.Queues.Coherent
import WindowFilter.Queues.Served
import WindowFilter.Pipeline.Display
import WindowFilter.Pipeline.Model
import WindowFilter.Pipeline.Stream
import WindowFilter.Pipeline.Refinement
import WindowFilter.Pipeline.Progress
import WindowFilter.Pipeline.Frames
import WindowFilter.Pipeline.Wave
import WindowFilter.Pipeline.Filter
import WindowFilter.System.Model
import WindowFilter.System.Divisor
import WindowFilter.System.Announced
import WindowFilter.Uart.Rx
import WindowFilter.Uart.Tx
import WindowFilter.Monitor.Model
import WindowFilter.Monitor.Usage
import WindowFilter.Monitor.Lifetime
import WindowFilter.Boot.Startup
import WindowFilter.Boot.Reset
