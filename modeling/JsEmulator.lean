import JsEmulator.Network.ArpCache
import JsEmulator.Network.Delivery
import JsEmulator.Network.HostForwards
import JsEmulator.Files.CanonicalInput
import JsEmulator.Files.Polling
import JsEmulator.Files.Streams
import JsEmulator.Custom32.Interrupts
import JsEmulator.Custom32.Restarts
import JsEmulator.Disk.BootBlock
import JsEmulator.Disk.HostImages
import JsEmulator.Disk.Offsets
import JsEmulator.Disk.SymbolicLinks
import JsEmulator.Files.ExactCounts
import JsEmulator.Memory.AreaRuns
import JsEmulator.Process.Forks
import JsEmulator.Process.PageFaults
import JsEmulator.Process.Parents
import JsEmulator.Process.Restart
import JsEmulator.Process.SignalFrames
import JsEmulator.Process.Statuses
import JsEmulator.Process.Clock
import JsEmulator.Toolchain.Literals
import JsEmulator.Toolchain.BlockMoves
import JsEmulator.Toolchain.Conditional
import JsEmulator.Toolchain.Deferred
import JsEmulator.Toolchain.Members
import JsEmulator.Toolchain.Runtime64
import JsEmulator.Toolchain.SinglePrecision
import JsEmulator.Toolchain.DoublePrecision
import JsEmulator.Userland.Environment
import JsEmulator.Userland.Output
import JsEmulator.Userland.Integers
import JsEmulator.Vfs.TmpFiles
