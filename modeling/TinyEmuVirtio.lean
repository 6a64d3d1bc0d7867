import TinyEmuVirtio.Objects.Device
import TinyEmuVirtio.Objects.Transport
import TinyEmuVirtio.Objects.Machine
import TinyEmuVirtio.Objects.Queue
import TinyEmuVirtio.Objects.Devices.Block
import TinyEmuVirtio.Objects.Devices.Net
import TinyEmuVirtio.Objects.Devices.Console
import TinyEmuVirtio.Objects.Devices.Input
import TinyEmuVirtio.Objects.Devices.NineP
import TinyEmuVirtio.Objects.Dispatcher
import TinyEmuVirtio.Execution.Internal
import TinyEmuVirtio.Execution.Registers
import TinyEmuVirtio.Execution.Step
import TinyEmuVirtio.Execution.Devices
import TinyEmuVirtio.Execution.Theorems.Transport
import TinyEmuVirtio.Execution.Theorems.Reset
import TinyEmuVirtio.Execution.Theorems.Access
import TinyEmuVirtio.Execution.Theorems.Features
import TinyEmuVirtio.Execution.Notify
import TinyEmuVirtio.Execution.Ledger
import TinyEmuVirtio.Execution.Theorems.Requests
import TinyEmuVirtio.Execution.Chain
import TinyEmuVirtio.Execution.Buffers
import TinyEmuVirtio.Execution.Copy
import TinyEmuVirtio.Execution.Theorems.QueueNotify
import TinyEmuVirtio.Execution.Theorems.Fids
import TinyEmuVirtio.Execution.Theorems.Copy
import TinyEmuVirtio.Execution.Theorems.Marshall
import TinyEmuVirtio.Execution.Theorems.UsedRing
import TinyEmuVirtio.Execution.Transfer
import TinyEmuVirtio.Execution.Theorems.DataPath
import TinyEmuVirtio.Execution.Theorems.BlockData
import TinyEmuVirtio.Execution.Theorems.NinePReply
import TinyEmuVirtio.Execution.Theorems.DriverView
import TinyEmuVirtio.Execution.Theorems.InputReports
import TinyEmuVirtio.Execution.Theorems.Entries
import TinyEmuVirtio.Execution.Dispatcher
import TinyEmuVirtio.Execution.Theorems.Dispatcher
