import Xrt.Errno
import Xrt.Execbuf.Ert
import Xrt.Lib.Ledger

/-!
# The exec-buffer ioctl

`xocl_command_ioctl` turns the packet in a buffer object into a KDS command and hands it to
the scheduler. On the way it takes a reference on the buffer object, a kernel copy of the
packet, a command and, for callers inside the kernel, a record for their callback. Who gives
them back depends on how far the call comes: the exit labels of the call itself, the
notification of the host, or `cb.free`.
-/
namespace Xrt.Execbuf

open Lib

inductive KdsOpcode where
  | none
  | config
  | start
  | abort
  | configSk
  | startSk
  | clkCalib
  | validate
  | getStat
  deriving DecidableEq, Repr

inductive KdsType where
  | cu
  | scu
  | ert
  deriving DecidableEq, Repr

inductive KdsStatus where
  | new
  | queued
  | running
  | completed
  | error
  | abort
  | timeout
  | skcrashed
  deriving DecidableEq, Repr

/-- `kds_ert_table`. -/
def KdsStatus.toErt : KdsStatus → ErtCmdState
  | .new => .new
  | .queued => .queued
  | .running => .running
  | .completed => .completed
  | .error => .error
  | .abort => .abort
  | .timeout => .timeout
  | .skcrashed => .skcrashed

/-- The callbacks that `cb.notify_host` can be. -/
inductive NotifyHost where
  | execbuf
  | execbufXgq
  deriving DecidableEq, Repr

/-- `struct kds_command`, as far as the call and the notification use it. `info` tells
whether the payload buffer has been allocated, `gemObj` is the handle of the exec buffer. -/
structure KdsCommand where
  type : KdsType
  opcode : KdsOpcode
  status : KdsStatus
  rcode : Int
  cuIdx : Int
  info : Bool
  notifyHost : NotifyHost
  gemObj : Nat
  inkernCb : Bool
  deriving DecidableEq, Repr

/-- What a call acquires: references on buffer objects, the kernel copy of the packet, the
command and the record of an in-kernel callback. -/
inductive Resource where
  | bo (handle : Nat)
  | execbuf
  | command
  | inkernCb
  deriving DecidableEq, Repr

/-- What is seen of a call from outside: the ledger of its resources, the state and the
return code in the packet of the user, the events and in-kernel callbacks that announced a
completion, and the command that was left with the scheduler. -/
structure World where
  log : List (Entry Resource)
  state : Nat
  returnCode : Option Int
  events : Nat
  callbacks : List Int
  queued : Option KdsCommand
  deriving DecidableEq, Repr

namespace World

def init : World := ⟨[], 0, none, 0, [], none⟩

def acquire (w : World) (r : Resource) : World := { w with log := w.log ++ [.acquire r] }

def release (w : World) (r : Resource) : World := { w with log := w.log ++ [.release r] }

/-- A completion has been announced. -/
def notified (w : World) : Prop := 0 < w.events ∨ w.callbacks ≠ []

end World

namespace KdsCommand

variable (xcmd : KdsCommand)

/-- The end of `notify_execbuf` and `notify_execbuf_xgq`: give back the buffer object and
the copy, and announce the completion. -/
def announce (status : KdsStatus) (w : World) : World :=
  let w := (w.release (.bo xcmd.gemObj)).release .execbuf
  if xcmd.inkernCb then
    let error := if status = .completed then 0 else -EFAULT
    { w with callbacks := w.callbacks ++ [error] }.release .inkernCb
  else { w with events := w.events + 1 }

def notifyExecbuf (status : KdsStatus) (w : World) : World :=
  xcmd.announce status
    (if xcmd.opcode = .startSk then
      -- an old shell leaves the return code to the driver
      if w.state < ErtCmdState.completed.toNat then { w with returnCode := some (-ENODATA) } else w
    else { w with state := status.toErt.toNat })

def notifyExecbufXgq (status : KdsStatus) (w : World) : World :=
  let w := if xcmd.opcode = .startSk then { w with returnCode := some xcmd.rcode } else w
  xcmd.announce status { w with state := status.toErt.toNat }

/-- `xcmd->cb.notify_host`. -/
def notify (status : KdsStatus) (w : World) : World :=
  match xcmd.notifyHost with
  | .execbuf => xcmd.notifyExecbuf status w
  | .execbufXgq => xcmd.notifyExecbufXgq status w

/-- `xcmd->cb.notify_host` and then `xcmd->cb.free`, as KDS finishes every command. -/
def finish (status : KdsStatus) (w : World) : World :=
  (xcmd.notify status w).release .command

end KdsCommand

def World.later (w : World) (status : KdsStatus) : World :=
  match w.queued with
  | none => w
  | some xcmd => xcmd.finish status w

/-- A buffer object: its size in bytes, whether it is an exec buffer, the start of its node
if it is local to the device, and the packet it holds. -/
structure Bo where
  size : Nat
  execbuf : Bool
  mmStart : Option Nat
  packet : ErtPacket
  deriving DecidableEq, Repr

/-- The scheduler: `ert` is the slot size of the embedded scheduler, if there is one. It is
there whenever commands are sent to it. -/
structure KdsSched where
  badState : Bool
  xgqEnable : Bool
  ertDisable : Bool
  ert : Option Nat
  numCus : Nat
  numCdma : Nat
  numScus : Nat
  psSchedOn : Bool
  present : ertDisable = false ∨ xgqEnable = true → ert.isSome = true

/-- One call and what it meets: the client and its buffer objects, the arguments (`cbFunc`
for a caller inside the kernel that wants a callback), which allocations succeed, and what
other parts answer. `copyImport` is the result of `xocl_copy_import_bo`, `acquired` that of
the loop around `acquire_cu_idx`, `aborted` the status of an abort command after each CU
has seen it, in the order of the CUs. -/
structure Call where
  kds : KdsSched
  hasCtx : Bool
  hasHwCtx : Bool
  lookup : Nat → Option Bo
  handle : Nat
  inKernel : Bool
  cbFunc : Bool
  execbufOk : Bool
  commandOk : Bool
  infoOk : Bool
  inkernCbOk : Bool
  copyImport : Int
  acquired : Int
  aborted : List KdsStatus

/-- The ways in which the call does not come back. -/
inductive Fault where
  | nullPointer
  deriving DecidableEq, Repr

/-! ## KDS -/

namespace Call

variable (call : Call)

/-- `kds_alloc_command`, with room for `size` bytes of payload. -/
def kdsAllocCommand (size : Nat) : Option KdsCommand :=
  if !call.commandOk ∨ size ≠ 0 ∧ !call.infoOk then none
  else some
    { type := .cu, opcode := .none, status := .new, rcode := 0, cuIdx := -1, info := size ≠ 0,
      notifyHost := .execbuf, gemObj := call.handle, inkernCb := false }

variable (xcmd : KdsCommand)

/-- `kds_cu_abort_cmd`: the first CU that knows the command to abort decides. -/
def kdsCuAbortCmd (w : World) : World :=
  let status := (call.aborted.find? (· ≠ .new)).getD .error
  { xcmd with status := status }.finish status w

/-- `kds_submit_cu`; the two domains differ in the CUs that `acquire_cu_idx` looks at. -/
def kdsSubmitCu (w : World) : World × Int :=
  match xcmd.opcode with
  | .start | .startSk =>
    if call.acquired < 0 then (w, call.acquired)
    else ({ w with queued := some { xcmd with cuIdx := call.acquired } }, 0)
  | .config | .getStat => (xcmd.finish .completed w, 0)
  | .abort => (call.kdsCuAbortCmd xcmd w, 0)
  | .none | .configSk | .clkCalib | .validate => (w, -EINVAL)

def kdsSubmitErt (w : World) : World × Int :=
  match xcmd.opcode with
  | .start =>
    if call.acquired < 0 then (w, call.acquired)
    else ({ w with queued := some { xcmd with cuIdx := call.acquired } }, 0)
  | .getStat =>
    if call.kds.numScus = 0 then (xcmd.finish .completed w, 0)
    else ({ w with queued := some xcmd }, 0)
  | .configSk | .config | .startSk | .clkCalib | .validate => ({ w with queued := some xcmd }, 0)
  | .none | .abort => (w, -EINVAL)

/-- The `switch` of `kds_add_command` over the type of the command. -/
def kdsSubmit (w : World) : World × Int :=
  match xcmd.type with
  | .cu | .scu => call.kdsSubmitCu xcmd w
  | .ert => call.kdsSubmitErt xcmd w

def kdsAddCommand (w : World) : World × Int :=
  let (w, err) := call.kdsSubmit xcmd w
  if err ≠ 0 then (xcmd.finish .error w, err) else (w, err)

end Call

/-! ## From the packet to a command -/

namespace KdsCommand

variable (xcmd : KdsCommand)

/-- Writing `bytes` bytes to the payload buffer, which is missing for a packet without
data. -/
def fillInfo (bytes : Nat) : Except Fault KdsCommand :=
  if bytes ≠ 0 ∧ !xcmd.info then .error .nullPointer else .ok xcmd

variable (pkt : ErtPacket)

/-- `start_krnl_ecmd2xcmd`: the masks and four control registers are left out. -/
def startKrnlEcmd2xcmd : Except Fault KdsCommand :=
  { xcmd with opcode := .start }.fillInfo ((pkt.count - (1 + pkt.extraCuMasks) - 4) * 4)

/-- `start_krnl_kv_ecmd2xcmd`, when `skipped` words have been taken out before. -/
def startKrnlKvEcmd2xcmd (skipped : Nat) : Except Fault KdsCommand :=
  { xcmd with opcode := .start }.fillInfo ((pkt.count - skipped - (1 + pkt.extraCuMasks)) * 4)

def startFaEcmd2xcmd : Except Fault KdsCommand :=
  { xcmd with opcode := .start }.fillInfo ((pkt.count - (1 + pkt.extraCuMasks)) * 4)

def startSkrnlEcmd2xcmd : Except Fault KdsCommand :=
  { xcmd with opcode := .startSk }.fillInfo ((pkt.count - (1 + pkt.extraCuMasks)) * 4)

/-- `abort_ecmd2xcmd`: the handle of the buffer to abort becomes the payload. -/
def abortEcmd2xcmd : Except Fault KdsCommand :=
  { xcmd with opcode := .abort }.fillInfo 4

end KdsCommand

/-- `sizeof(struct xgq_cmd_sq_hdr)`. -/
def sqHdrBytes : Nat := 8

def kdmaBlockSize : Nat := 64

def pageSize : Nat := 4096

namespace Call

variable (call : Call)

/-- The words that `convert_exec_write2key_val` takes out of an `ERT_EXEC_WRITE` packet. -/
def execWriteSkipped : Nat := if call.kds.psSchedOn then 0 else 6

/-- The address that `get_bo_paddr` finds. -/
def boPaddr (handle off size : Nat) : Except Int Nat :=
  match call.lookup handle with
  | none => .error (-ENOENT)
  | some bo =>
    match bo.mmStart with
    | none => .error (-EADDRNOTAVAIL)
    | some start =>
      if bo.size ≤ off ∨ bo.size < (off + size) % 2 ^ 64 then .error (-EINVAL)
      else .ok ((start + off) % 2 ^ 64)

/-- `get_bo_paddr`, which gives the buffer object back on each of its ways out. -/
def getBoPaddr (handle off size : Nat) (w : World) : World × Except Int Nat :=
  match call.lookup handle with
  | none => (w, call.boPaddr handle off size)
  | some _ => ((w.acquire (.bo handle)).release (.bo handle), call.boPaddr handle off size)

variable (pkt : ErtPacket)

/-- The part of `copybo_ecmd2xcmd` after the source and the destination have been looked up:
a copy between two local buffers is left to a CU, one to or from a foreign buffer is done
at once. -/
def copyLocal (xcmd : KdsCommand) (src dst : Except Int Nat) : Except Fault (KdsCommand × Int) :=
  match src, dst with
  | .error _, .error _ => .ok (xcmd, -EINVAL)
  | .ok srcAddr, .ok dstAddr =>
    if call.kds.numCdma = 0 then .ok (xcmd, -EINVAL)
    else if (dstAddr + pkt.word64 12 11) % kdmaBlockSize ≠ 0 ∨
        (srcAddr + pkt.word64 9 8) % kdmaBlockSize ≠ 0 ∨ pkt.word 14 % kdmaBlockSize ≠ 0 then
      .ok (xcmd, -EINVAL)
    else do
      let xcmd ← xcmd.startKrnlEcmd2xcmd pkt
      .ok (xcmd, 0)
  | _, _ => .ok (xcmd, if call.copyImport < 0 then call.copyImport else 1)

/-- An error of `get_bo_paddr` other than that the buffer is not local. -/
def failed : Except Int Nat → Option Int
  | .ok _ => none
  | .error err => if err = -EADDRNOTAVAIL then none else some err

def copyboEcmd2xcmd (xcmd : KdsCommand) (w : World) : Except Fault (World × KdsCommand × Int) :=
  let (w, src) := call.getBoPaddr (pkt.word 10) (pkt.word64 9 8) (pkt.word 14) w
  match failed src with
  | some err => .ok (w, xcmd, err)
  | none =>
    let (w, dst) := call.getBoPaddr (pkt.word 13) (pkt.word64 12 11) (pkt.word 14) w
    match failed dst with
    | some err => .ok (w, xcmd, err)
    | none => do
      let (xcmd, ret) ← call.copyLocal pkt xcmd src dst
      .ok (w, xcmd, ret)

variable (xcmd : KdsCommand)

/-- A command whose XGQ form has `payload` bytes behind the header. -/
def convertXgq (payload : Nat) (w : World) : Except Fault (World × KdsCommand × Int) := do
  let xcmd ← xcmd.fillInfo (sqHdrBytes + payload)
  .ok (w, xcmd, 1)

/-- `xocl_fill_payload_xgq`: a positive result asks for the command to be submitted. -/
def xoclFillPayloadXgq (xcmd : KdsCommand) (w : World) : Except Fault (World × KdsCommand × Int) :=
  let masks := 1 + pkt.extraCuMasks
  match pkt.opcode with
  | some .configure | some .skConfig =>
    .ok ({ xcmd with status := .completed }.notify .completed w, xcmd, 0)
  | some .skStart =>
    convertXgq { xcmd with type := .scu, opcode := .startSk } ((pkt.count - masks) * 4) w
  | some .startCu =>
    convertXgq { xcmd with type := .cu, opcode := .start } ((pkt.count - masks - 4) * 4) w
  | some .clkCalib => convertXgq { xcmd with type := .ert, opcode := .clkCalib } 0 w
  | some .accessTestC | some .mbValidate =>
    convertXgq { xcmd with type := .ert, opcode := .validate } 0 w
  | some .execWrite =>
    convertXgq { xcmd with type := .cu, opcode := .start }
      ((pkt.count - call.execWriteSkipped - masks) * 4) w
  | some .startKeyVal =>
    convertXgq { xcmd with type := .cu, opcode := .start } ((pkt.count - masks) * 4) w
  | some .startCopybo => do
    let (w, xcmd, ret) ← call.copyboEcmd2xcmd pkt xcmd w
    if 0 < ret then .ok ({ xcmd with status := .completed }.notify .completed w, xcmd, 0)
    else .ok (w, xcmd, ret)
  | _ => .ok (w, xcmd, -EINVAL)

/-- `copy_and_validate_execbuf`: the copy of the packet, if it is valid. -/
def copyAndValidateExecbuf (bo : Bo) : Option ErtPacket :=
  let header := (bo.packet.header &&& ~~~0xf) ||| BitVec.ofNat 32 ErtCmdState.new.toNat
  let pkt : ErtPacket := ⟨header, bo.packet.data.take (ErtPacket.count ⟨header, []⟩)⟩
  if bo.size < pkt.size then none
  else if !pkt.ertValidOpcode then none
  else if bo.size < pkt.sizeWithTimestampsOrZero then none
  else if call.kds.xgqEnable then some pkt
  else match call.kds.ert with
    | none => some pkt
    | some slotSize => if 0 < slotSize ∧ slotSize < pkt.size then none else some pkt

/-! ## The call -/

/-- The label `out`; `copied` tells whether there is a copy of the packet. -/
def out (ret : Int) (copied : Bool) (w : World) : World × Int :=
  if ret < 0 then
    ((if copied then w.release .execbuf else w).release (.bo call.handle), ret)
  else (w, ret)

/-- The label `out1`. -/
def out1 (ret : Int) (w : World) : World × Int := call.out ret true (w.release .command)

/-- The label `out2`. -/
def out2 (w : World) : World × Int :=
  if call.inKernel ∧ call.cbFunc then
    if !call.inkernCbOk then call.out1 (-ENOMEM) w
    else call.kdsAddCommand { xcmd with inkernCb := true } (w.acquire .inkernCb)
  else call.kdsAddCommand xcmd w

/-- The way on after `xocl_fill_payload_xgq`. -/
def afterFill (filled : World × KdsCommand × Int) : World × Int :=
  let (w, xcmd, ret) := filled
  if 0 < ret then call.out2 xcmd w else call.out1 ret w

def dispatchXgq (xcmd : KdsCommand) (w : World) : Except Fault (World × Int) := do
  let filled ← call.xoclFillPayloadXgq pkt { xcmd with notifyHost := .execbufXgq } w
  .ok (call.afterFill filled)

/-- The `switch` of `xocl_command_ioctl` over the opcode, without XGQ. -/
def dispatchLegacy (xcmd : KdsCommand) (w : World) : Except Fault (World × Int) :=
  let xcmd := { xcmd with
    notifyHost := .execbuf
    type := if call.kds.ertDisable then .cu else .ert }
  match pkt.opcode with
  | some .configure | some .skConfig =>
    .ok (call.out1 0 ({ xcmd with status := .completed }.notify .completed w))
  | some .startCu => do
    let xcmd ← xcmd.startKrnlEcmd2xcmd pkt
    .ok (call.out2 xcmd w)
  | some .execWrite => do
    let xcmd ← xcmd.startKrnlKvEcmd2xcmd pkt call.execWriteSkipped
    .ok (call.out2 xcmd w)
  | some .startKeyVal => do
    let xcmd ← xcmd.startKrnlKvEcmd2xcmd pkt 0
    .ok (call.out2 xcmd w)
  | some .startFa => do
    let xcmd ← xcmd.startFaEcmd2xcmd pkt
    .ok (call.out2 { xcmd with type := .cu } w)
  | some .startCopybo => do
    let (w, xcmd, ret) ← call.copyboEcmd2xcmd pkt xcmd w
    if 0 < ret then .ok (call.out1 0 ({ xcmd with status := .completed }.notify .completed w))
    else if ret < 0 then .ok (call.out1 ret w)
    else .ok (call.out2 xcmd w)
  | some .skStart =>
    if call.kds.ertDisable then .ok (call.out1 (-EINVAL) w)
    else do
      let xcmd ← xcmd.startSkrnlEcmd2xcmd pkt
      .ok (call.out2 xcmd w)
  | some .clkCalib => .ok (call.out2 { xcmd with opcode := .clkCalib } w)
  | some .mbValidate | some .accessTestC => .ok (call.out2 { xcmd with opcode := .validate } w)
  | some .cuStat => .ok (call.out2 { xcmd with opcode := .getStat } w)
  | some .abort => do
    let xcmd ← xcmd.abortEcmd2xcmd
    .ok (call.out2 xcmd w)
  | _ => .ok (call.out1 (-EINVAL) w)

/-- The part of `xocl_command_ioctl` after the buffer object has been found. -/
def execute (bo : Bo) : Except Fault (World × Int) :=
  let w := World.init.acquire (.bo call.handle)
  -- `return false`
  if !bo.execbuf then .ok (w, 0)
  else if bo.size < pageSize then .ok (call.out (-EINVAL) false w)
  else if !call.execbufOk then .ok (call.out (-ENOMEM) false w)
  else
    let w := { w.acquire .execbuf with state := ErtCmdState.new.toNat }
    match call.copyAndValidateExecbuf bo with
    | none => .ok (call.out (-EINVAL) true w)
    | some pkt =>
      match call.kdsAllocCommand (pkt.count * 4) with
      | none => .ok (call.out (-ENOMEM) true w)
      | some xcmd =>
        let w := w.acquire .command
        if call.kds.xgqEnable then call.dispatchXgq pkt xcmd w
        else call.dispatchLegacy pkt xcmd w

def xoclCommandIoctl : Except Fault (World × Int) :=
  if !call.hasCtx ∧ !call.hasHwCtx then .ok (World.init, -EINVAL)
  else if call.kds.badState then .ok (World.init, -EDEADLK)
  else match call.lookup call.handle with
    | none => .ok (World.init, -ENOENT)
    | some bo => call.execute bo

end Call

end Xrt.Execbuf
