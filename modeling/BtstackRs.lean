import BtstackRs.Concurrent.Machine
import BtstackRs.Concurrent.Pool
import BtstackRs.Concurrent.Waiting
import BtstackRs.Concurrent.History
import BtstackRs.Concurrent.Endless
import BtstackRs.Concurrent.LeadsTo
import BtstackRs.Concurrent.Cost
import BtstackRs.Concurrent.Refinement
import BtstackRs.Concurrent.Pipeline
import BtstackRs.Sequence.Patch
import BtstackRs.Sequence.Window
import BtstackRs.Sequence.Table
import BtstackRs.Sequence.Fallible
import BtstackRs.Transport.Usb
import BtstackRs.Transport.Writer
import BtstackRs.Transport.System
import BtstackRs.Transport.Step
import BtstackRs.Transport.Scope
import BtstackRs.Transport.Crew
import BtstackRs.Transport.Slots
import BtstackRs.Transport.Fifo
import BtstackRs.Transport.Emission
import BtstackRs.Transport.Workers
import BtstackRs.Transport.Nesting
import BtstackRs.Transport.Handover
import BtstackRs.Transport.Acknowledge
import BtstackRs.Transport.Stop
import BtstackRs.Transport.Mutex
import BtstackRs.Transport.Deadlock
import BtstackRs.Transport.Ownership
import BtstackRs.Transport.Lifecycle
import BtstackRs.Transport.Keeping
import BtstackRs.Transport.Quiescence
import BtstackRs.Transport.Silence
import BtstackRs.Transport.Overlap
import BtstackRs.Transport.Fate
import BtstackRs.Transport.Erasure
import BtstackRs.Transport.OpenCall
import BtstackRs.Transport.Epochs
import BtstackRs.Transport.Account
import BtstackRs.Transport.Calls
import BtstackRs.Transport.Sending
import BtstackRs.Transport.Contention
import BtstackRs.Transport.CanSend
import BtstackRs.Transport.Reply
import BtstackRs.Transport.Refusal
import BtstackRs.Transport.Agreement
import BtstackRs.Transport.Justified
import BtstackRs.Transport.UsbIdentity
import BtstackRs.Transport.Delivery
import BtstackRs.Transport.Drain
import BtstackRs.Transport.Trace
import BtstackRs.Transport.Flow
import BtstackRs.Transport.Wakeup
import BtstackRs.Transport.Closing
import BtstackRs.Transport.Selection
import BtstackRs.Transport.PortPath
import BtstackRs.Transport.Packets
import BtstackRs.Transport.Receive
import BtstackRs.Transport.Arrival
import BtstackRs.Transport.Announcement
import BtstackRs.Gatt.Runtime
import BtstackRs.Gatt.LoopThread
import BtstackRs.Gatt.Alternation
import BtstackRs.Gatt.Release
import BtstackRs.Gatt.CounterMain
import BtstackRs.Gatt.Peripheral.Prepared
import BtstackRs.Gatt.Peripheral.LongAccess
import BtstackRs.Gatt.Peripheral.PlainWrite
import BtstackRs.Gatt.Peripheral.Resolution
import BtstackRs.Gatt.Peripheral.Frame
import BtstackRs.Gatt.Peripheral.Connection
import BtstackRs.Gatt.Peripheral.Notifications
import BtstackRs.Gatt.Peripheral.Lending
import BtstackRs.Gatt.Peripheral.Advertising
import BtstackRs.Gatt.Peripheral.Sessions
import BtstackRs.Gatt.Peripheral.Construction
import BtstackRs.Gatt.Counter
import BtstackRs.Gatt.CounterText
import BtstackRs.Gatt.Bounds
import BtstackRs.Gatt.Results
