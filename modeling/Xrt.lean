import Xrt.Aie.Columns
import Xrt.Aie.LastValue
import Xrt.Aie.PatchBounds
import Xrt.Aie.PatchField
import Xrt.Aie.Relocations
import Xrt.Aie.ScratchPad
import Xrt.Bo.Bounds
import Xrt.Cu.AbortCmd
import Xrt.Cu.Attribution
import Xrt.Cu.HpqWait
import Xrt.Cu.IpLayout
import Xrt.Cu.Log
import Xrt.Emu.Children
import Xrt.Emu.Contiguous
import Xrt.Ert.XgqCu
import Xrt.Execbuf.Buffers
import Xrt.Fdt.StringsBlock
import Xrt.Flash.McsStream
import Xrt.Hip.PoolSearch
import Xrt.HwQueue.Completion
import Xrt.HwQueue.Stranded
import Xrt.Kds.Balance
import Xrt.Kds.CmdMem
import Xrt.Kds.Legacy
import Xrt.Kds.Virtual
import Xrt.Kernel.Callbacks
import Xrt.Kernel.Connectivity
import Xrt.Kernel.FailedStart
import Xrt.Kernel.Update
import Xrt.Mailbox.Completion
import Xrt.Mailbox.Transport
import Xrt.Ospi.Download
import Xrt.Ospi.ReadPdi
import Xrt.Pdi.Bounds
import Xrt.Pdi.Pieces
import Xrt.Runlist.FailedAdd
import Xrt.Scu.RegisterBounds
import Xrt.Scu.SoftKernel
import Xrt.Scu.Thread
import Xrt.Xclbin.CborNegative
import Xrt.Xclbin.GroupTag
import Xrt.Xclbin.MergeArgs
import Xrt.Xclbin.Signature
import Xrt.Xdp.MemoryEvents
import Xrt.Xdp.TraceStart
import Xrt.Xgq.Attach
import Xrt.Xgq.Correctness
import Xrt.Xgq.Group
import Xrt.Xgq.Responses
import Xrt.Zocl.CtrlErt
import Xrt.Zocl.SkGetcmd
import Xrt.Zocl.StartSafety
