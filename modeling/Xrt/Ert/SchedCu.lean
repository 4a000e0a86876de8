import Xrt.Cu.Hls
import Xrt.Errno

/-!
# Commands and CUs of the ERT firmware

`sched_cmd.h` and `sched_cu.h`: the command that the firmware takes from the slot of a
submission queue, and what it does to the CU for it. A slot is read while its command is
executed and stays as it is meanwhile, so the memory is an argument; what is written to a
CU is appended to `writes`, and its status register is read with an answer of the hardware.
-/
namespace Xrt.Ert

open Xrt.Cu (XGQ_CMD_OP_START_CUIDX XGQ_CMD_OP_START_CUIDX_KV)

def XGQ_CMD_OP_INIT_CUIDX_KV : BitVec 32 := 0x106

/-- What `reg_read` finds at an address. -/
abbrev Memory := BitVec 32 → BitVec 32

/-- The addresses of `reg_read` and `reg_write` have 32 bits. -/
def busAddr (addr : BitVec 64) : BitVec 32 := addr.setWidth 32

/-- A `reg_write`. -/
structure BusWrite where
  addr : BitVec 32
  val : BitVec 32
  deriving DecidableEq, Repr

/-! ### Commands -/

/-- `struct sched_cmd`; `header` is the first word of the command header. -/
structure SchedCmd where
  ccAddr : BitVec 64
  header : BitVec 32
  deriving DecidableEq, Repr

namespace SchedCmd

variable (cmd : SchedCmd)

def cmdLoadHeader (mem : Memory) : SchedCmd := { cmd with header := mem (busAddr cmd.ccAddr) }
def cmdClearHeader : SchedCmd := { cmd with header := 0 }
def cmdSetAddr (addr : BitVec 64) : SchedCmd := { cmd with ccAddr := addr }

def cmdPayloadSize : BitVec 32 := (cmd.header >>> 16) &&& 0x7FFF
def cmdOpCode : BitVec 32 := cmd.header &&& 0xFFFF
def cmdIsValid : Bool := cmd.header.getLsbD 31

/-- The address and the size of the arguments of a start command. They follow the header of
eight bytes, and the count of the header is their size: `data` is all that the size of the
command structure has beyond the header. `cmd_kv_args` is the same for its structure. -/
def cmdArgs : BitVec 64 × BitVec 32 := (cmd.ccAddr + 8, cmd.cmdPayloadSize)
def cmdKvArgs : BitVec 64 × BitVec 32 := cmd.cmdArgs

end SchedCmd

/-! ### CUs -/

def SCHED_AP_START : BitVec 32 := 0x1
def SCHED_AP_DONE : BitVec 32 := 0x2
def SCHED_AP_IDLE : BitVec 32 := 0x4
def SCHED_AP_READY : BitVec 32 := 0x8
def SCHED_AP_CONTINUE : BitVec 32 := 0x10
def SCHED_AP_WAIT_FOR_INPUT : BitVec 32 := SCHED_AP_READY ||| SCHED_AP_IDLE
def SCHED_CU_ARG_OFFSET : BitVec 64 := 0x10

structure SchedCu where
  cuAddr : BitVec 64
  cuStatus : BitVec 32
  /-- Everything written, oldest first. -/
  writes : List BusWrite
  deriving DecidableEq, Repr

namespace SchedCu

variable (cu : SchedCu)

def cuSetStatus (flags : BitVec 32) : SchedCu := { cu with cuStatus := cu.cuStatus ||| flags }
def cuClearStatus (flags : BitVec 32) : SchedCu :=
  { cu with cuStatus := cu.cuStatus &&& ~~~flags }
def cuHasStatus (flags : BitVec 32) : Bool := cu.cuStatus &&& flags != 0

def regWrite (addr : BitVec 64) (val : BitVec 32) : SchedCu :=
  { cu with writes := cu.writes ++ [⟨busAddr addr, val⟩] }

def regWrites (writes : List BusWrite) : SchedCu := { cu with writes := cu.writes ++ writes }

/-- `hw` is what the status register reads. A started CU that has taken its input no longer
shows `SCHED_AP_START`. -/
def cuLoadStatus (hw : BitVec 32) : SchedCu :=
  let ready := cu.cuHasStatus SCHED_AP_START && hw &&& SCHED_AP_START == 0
  cu.cuSetStatus (if ready then hw ||| SCHED_AP_READY else hw)

def kickOff : SchedCu :=
  ((cu.regWrite cu.cuAddr SCHED_AP_START).cuSetStatus SCHED_AP_START).cuClearStatus
    SCHED_AP_WAIT_FOR_INPUT

variable (mem : Memory)

/-- The copy loop of `cu_start`, word by word. -/
def argWrites (src dst : BitVec 64) (argSz : BitVec 32) : List BusWrite :=
  (List.range (argSz.toNat / 4)).map fun i =>
    ⟨busAddr (dst + BitVec.ofNat 64 (4 * i)), mem (busAddr (src + BitVec.ofNat 64 (4 * i)))⟩

variable (cmd : SchedCmd)

def cuStart : Int × SchedCu :=
  let (src, argSz) := cmd.cmdArgs
  if argSz &&& 3 ≠ 0 then (-EINVAL, cu)
  else
    (0, (cu.regWrites (argWrites mem src (cu.cuAddr + SCHED_CU_ARG_OFFSET) argSz)).kickOff)

/-- A check with an error, and the work behind it. -/
theorem accepted_iff {ok : Prop} [Decidable ok] {err : Int} {before after : SchedCu}
    (bad : ¬ ok → err ≠ 0) : (if ¬ ok then (err, before) else (0, after)).1 = 0 ↔ ok := by
  by_cases holds : ok
  · rw [if_neg (not_not.mpr holds)]
    exact iff_of_true rfl holds
  · rw [if_pos holds]
    exact iff_of_false (bad holds) holds

theorem cuStart_eq_zero_iff : (cu.cuStart mem cmd).1 = 0 ↔ cmd.cmdPayloadSize &&& 3 = 0 :=
  accepted_iff fun _ => show -EINVAL ≠ 0 by decide

/-- The loop of `cu_init_kv` over {offset, value} pairs. -/
def kvWrites (src dst : BitVec 64) (argSz : BitVec 32) : List BusWrite :=
  (List.range (argSz.toNat / 8)).map fun i =>
    ⟨busAddr (dst + (mem (busAddr (src + BitVec.ofNat 64 (8 * i)))).setWidth 64),
      mem (busAddr (src + BitVec.ofNat 64 (8 * i + 4)))⟩

def cuInitKv : Int × SchedCu :=
  let (src, argSz) := cmd.cmdKvArgs
  if argSz &&& 7 ≠ 0 then (-EINVAL, cu)
  else (0, cu.regWrites (kvWrites mem src cu.cuAddr argSz))

theorem cuInitKv_eq_zero_iff : (cu.cuInitKv mem cmd).1 = 0 ↔ cmd.cmdPayloadSize &&& 7 = 0 :=
  accepted_iff fun _ => show -EINVAL ≠ 0 by decide

def cuStartKv : Int × SchedCu :=
  let (ret, cu) := cu.cuInitKv mem cmd
  if ret ≠ 0 then (ret, cu) else (0, cu.kickOff)

theorem cuStartKv_eq_zero_iff : (cu.cuStartKv mem cmd).1 = 0 ↔ cmd.cmdPayloadSize &&& 7 = 0 := by
  rw [← cu.cuInitKv_eq_zero_iff mem]
  exact accepted_iff id

/-- The switch over the opcode in `xgq_cu_process`. -/
def cuExecute : Int × SchedCu :=
  if cmd.cmdOpCode = XGQ_CMD_OP_START_CUIDX then cu.cuStart mem cmd
  else if cmd.cmdOpCode = XGQ_CMD_OP_START_CUIDX_KV then cu.cuStartKv mem cmd
  else if cmd.cmdOpCode = XGQ_CMD_OP_INIT_CUIDX_KV then cu.cuInitKv mem cmd
  else (-ENOTTY, cu)

def cuDone : SchedCu :=
  (cu.regWrite cu.cuAddr SCHED_AP_CONTINUE).cuClearStatus SCHED_AP_DONE

end SchedCu

end Xrt.Ert
