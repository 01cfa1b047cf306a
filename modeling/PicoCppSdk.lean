import PicoCppSdk.Foundation.Program
import PicoCppSdk.Foundation.Transition
import PicoCppSdk.Foundation.History
import PicoCppSdk.Foundation.RecursiveMutex
import PicoCppSdk.Foundation.Ledger
import PicoCppSdk.Foundation.FullDuplex
import PicoCppSdk.Foundation.Broadcast
import PicoCppSdk.Foundation.Threads
import PicoCppSdk.Foundation.Reduction
import PicoCppSdk.Dma.Channel
import PicoCppSdk.Dma.Dispatch
import PicoCppSdk.Dma.Acknowledge
import PicoCppSdk.Spi.Bracket
import PicoCppSdk.Spi.Alone
import PicoCppSdk.Spi.Nesting
import PicoCppSdk.Spi.Exclusion
import PicoCppSdk.Spi.Transfer
import PicoCppSdk.Spi.InPlace
import PicoCppSdk.Spi.Completion
import PicoCppSdk.Spi.Interrupts
import PicoCppSdk.Spi.Stage
import PicoCppSdk.Spi.Return
import PicoCppSdk.Mcp2515.Reg
import PicoCppSdk.Mcp2515.Driver
import PicoCppSdk.Mcp2515.Frame
import PicoCppSdk.Mcp2515.Codec
import PicoCppSdk.Mcp2515.Filter
import PicoCppSdk.Mcp2515.Access
import PicoCppSdk.Mcp2515.Bounds
import PicoCppSdk.Mcp2515.Locking
import PicoCppSdk.Mcp2515.Wire
import PicoCppSdk.Mcp2515.Chip
import PicoCppSdk.Mcp2515.Programming
import PicoCppSdk.Mcp2515.Decoder
import PicoCppSdk.TaskInterface.Deletion
import PicoCppSdk.TaskInterface.Name
import PicoCppSdk.Udp.Transport
import PicoCppSdk.Udp.Timeout
import PicoCppSdk.Gpio.Registration
import PicoCppSdk.Mcp2515Task.Program
import PicoCppSdk.Mcp2515Task.ControlPoint
import PicoCppSdk.Mcp2515Task.System
import PicoCppSdk.Mcp2515Task.Move
import PicoCppSdk.Mcp2515Task.Footprint
import PicoCppSdk.Mcp2515Task.Wakeup
import PicoCppSdk.Mcp2515Task.Transmit
import PicoCppSdk.Mcp2515Task.Mailbox
import PicoCppSdk.Mcp2515Task.Delivery
import PicoCppSdk.Mcp2515Task.Receive
import PicoCppSdk.Mcp2515Task.Mask
import PicoCppSdk.Mcp2515Task.Order
import PicoCppSdk.Mcp2515Task.Stamp
import PicoCppSdk.Mcp2515Task.BusOff
import PicoCppSdk.Mcp2515Task.Init
import PicoCppSdk.Mcp2515Task.Lifetime
import PicoCppSdk.Mcp2515Task.Progress
import PicoCppSdk.Mcp2515Task.Pending
import PicoCppSdk.Mcp2515Task.Rest
import PicoCppSdk.Mcp2515Task.Bus
import PicoCppSdk.Mcp2515Task.OnWire
import PicoCppSdk.Mcp2515Task.Source
import PicoCppSdk.Mcp2515Task.Startup
import PicoCppSdk.Mcp2515Task.Handover
import PicoCppSdk.Mcp2515Task.Settings
import PicoCppSdk.Mcp2515Task.Independent
