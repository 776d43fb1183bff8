import ZOs.Memory.BlockMapping
import ZOs.Memory.KernelTables
import ZOs.Memory.TableCopy
import ZOs.Memory.HeapFreeTwice
import ZOs.Memory.HeapGrowth
import ZOs.Memory.PageFree
import ZOs.Memory.MapPartition
import ZOs.Memory.WindowRoundTrip
import ZOs.Lib.Ensures
import ZOs.Sched.AddressSpace
import ZOs.Sched.Switch
import ZOs.Sched.SystemCalls
import ZOs.Ipc.Lifetime
import ZOs.Usb.RingProtocol
import ZOs.Usb.DmaPages
import ZOs.Files.FileTable
import ZOs.Ipc.Receive
import ZOs.Usb.EnumerationFaithful
import ZOs.Usb.EnumerationSafe
import ZOs.Usb.DescriptorWalk
import ZOs.Usb.Submission
import ZOs.Usb.CoreRequests
import ZOs.Usb.Hid
import ZOs.Usb.HidChanges
import ZOs.Utils.ByteRing
import ZOs.Utils.KeyKinds
import ZOs.Utils.ListSequences
import ZOs.Utils.VectorFailures
import ZOs.Utils.VectorList
import ZOs.Input.FanOut
import ZOs.Libz.Malloc
import ZOs.Compositor.Replies
import ZOs.Compositor.Survival
import ZOs.Process.MmapBounds
import ZOs.Loader.KernelFaithful
import ZOs.Process.ElfReads
import ZOs.Process.ZeroTail
import ZOs.Process.Permissions
import ZOs.Process.FileBytes
import ZOs.Process.OwnMemory
import ZOs.Process.Spills
import ZOs.Process.StaleBytes
import ZOs.Process.Landing
import ZOs.Process.FreshMemory
import ZOs.Compositor.TextInput
import ZOs.Compositor.Clipping
import ZOs.Compositor.ShiftKeys
import ZOs.Compositor.TextLayout
import ZOs.Kernel.Time
import ZOs.Pci.Ecam
import ZOs.Usb.Contexts
import ZOs.Utils.HandleTable
import ZOs.Files.PathTypes
import ZOs.Compositor.Cursor
import ZOs.Compositor.Typist
import ZOs.Compositor.AlphaPaint
import ZOs.Compositor.Frames
import ZOs.Process.Coherence
import ZOs.Ipc.Progress
import ZOs.Compositor.WindowCalls
import ZOs.Memory.KernelHeap
