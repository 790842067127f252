import SortingLine.Controller.Equiv.AdcFault
import SortingLine.Controller.Equiv.Batch
import SortingLine.Controller.Equiv.Boot
import SortingLine.Controller.Equiv.Display
import SortingLine.Controller.Equiv.Durability
import SortingLine.Controller.Equiv.Format
import SortingLine.Controller.Equiv.Kernel
import SortingLine.Controller.Equiv.Masks
import SortingLine.Controller.Equiv.NbConn
import SortingLine.Controller.Equiv.NbSetup
import SortingLine.Controller.Equiv.PowerLoss
import SortingLine.Controller.Equiv.Receivers
import SortingLine.Controller.Equiv.Reports
import SortingLine.Controller.Equiv.Session
import SortingLine.Controller.Equiv.Startup
import SortingLine.Controller.Equiv.Telemetry
import SortingLine.Controller.Equiv.Threshold
import SortingLine.Controller.Equiv.WeighingLaw
import SortingLine.Controller.Equiv.Weights
import SortingLine.Fb.Equiv.Console
import SortingLine.Fb.Equiv.Overlap
import SortingLine.Fb.Equiv.Painting
import SortingLine.Flash.Equiv.Blocks
import SortingLine.Flash.Equiv.Chunk
import SortingLine.Flash.Equiv.Secded
import SortingLine.Gui.Equiv.Buttons
import SortingLine.Gui.Equiv.Columns
import SortingLine.Gui.Equiv.Grid
import SortingLine.Gui.Equiv.Paint
import SortingLine.Gui.Equiv.Queue
import SortingLine.Gui.Equiv.Repaint
import SortingLine.Gui.Equiv.Tiling
import SortingLine.I2c.Equiv.Lock
import SortingLine.Rtc.Equiv.Toy
import SortingLine.Rtos.Equiv.MemUsers
import SortingLine.Touch.Equiv.Calibration
import SortingLine.Touch.Equiv.Task
import SortingLine.Uart.Equiv.Buffer
import SortingLine.Uart.Equiv.Ns16550
import SortingLine.Library.Deque
import SortingLine.Library.Links
import SortingLine.RtMq.Equiv.Interleaving
import SortingLine.RtMq.Equiv.Wakeups
