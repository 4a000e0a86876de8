import Mathlib.Data.BitVec

/-!
# The HLS compute unit core

`struct kds_command` as far as the CU queues look at it, and the functions of `cu_hls.c`.
Every register read is an argument, so that the hardware may answer anything; register
writes are appended to `writes`. The `submitted` and `completed` lists of the core hold
the commands themselves, oldest first.
-/
namespace Xrt.Cu

inductive KdsStatus where
  | new | queued | running | completed | error | abort | timeout | skcrashed
  deriving DecidableEq, Repr

inductive KdsOpcode where
  | none | config | start | abort | configSk | startSk | clkCalib | validate | getStat
  deriving DecidableEq, Repr

/-- The layouts of `xcmd->info`. -/
inductive PayloadType where
  | regmap | keyVal | xgqCmd
  deriving DecidableEq, Repr

/-- A `struct kds_command`. `id` is its address; `isize` counts the bytes of `info`. -/
structure KdsCommand where
  id : Nat
  client : Nat
  status : KdsStatus
  opcode : KdsOpcode
  execBoHandle : BitVec 32
  payloadType : PayloadType
  info : List (BitVec 32)
  isize : Nat
  deriving DecidableEq, Repr

namespace KdsCommand

/-- `data[i]`. -/
def word (xcmd : KdsCommand) (i : Nat) : BitVec 32 := xcmd.info.getD i 0

def withStatus (status : KdsStatus) (xcmd : KdsCommand) : KdsCommand := { xcmd with status }

@[simp] theorem withStatus_id (status : KdsStatus) (xcmd : KdsCommand) :
    (xcmd.withStatus status).id = xcmd.id := rfl

end KdsCommand

/-! ### Registers -/

def CTRL : BitVec 32 := 0x0
def ISR : BitVec 32 := 0xC
def ARGS : BitVec 32 := 0x10

def CU_AP_START : BitVec 32 := 0x1
def CU_AP_DONE : BitVec 32 := 0x2
def CU_AP_IDLE : BitVec 32 := 0x4
def CU_AP_CONTINUE : BitVec 32 := 0x10
def CU_AP_SW_RESET : BitVec 32 := 0x100
def CU_AP_CRASHED : BitVec 32 := 0xFFFFFFFF
def CU_INTR_DONE : BitVec 32 := 0x1

/-- `reg & mask` as a C condition. -/
def bitSet (reg mask : BitVec 32) : Bool := reg &&& mask != 0

structure RegWrite where
  reg : BitVec 32
  val : BitVec 32
  deriving DecidableEq, Repr

structure XrtCuHls where
  maxCredits : Int
  credits : Int
  runCnts : Int
  ctrlChain : Bool
  swReset : Bool
  /-- `ap_done` bits that the interrupt handler has already acknowledged. -/
  done : Nat
  submitted : List KdsCommand
  completed : List KdsCommand
  /-- Everything written to the registers, oldest first. -/
  writes : List RegWrite
  deriving DecidableEq, Repr

structure XcuStatus where
  numDone : Nat
  numReady : Nat
  newStatus : BitVec 32
  deriving DecidableEq, Repr

/-- What `xrt_cu_hls_init` leaves: one credit, nothing submitted. -/
def xrtCuHlsInit (ctrlChain swReset : Bool) : XrtCuHls where
  maxCredits := 1
  credits := 1
  runCnts := 0
  ctrlChain := ctrlChain
  swReset := swReset
  done := 0
  submitted := []
  completed := []
  writes := []

variable (cu : XrtCuHls)

def cuWrite32 (reg val : BitVec 32) : XrtCuHls :=
  { cu with writes := cu.writes ++ [⟨reg, val⟩] }

def cuWrites (writes : List RegWrite) : XrtCuHls :=
  { cu with writes := cu.writes ++ writes }

/-- The oldest submitted command, if there is one, becomes the newest completed one. -/
def cuMoveToComplete (status : KdsStatus) : XrtCuHls :=
  match cu.submitted with
  | [] => cu
  | xcmd :: rest =>
    { cu with
      submitted := rest
      runCnts := cu.runCnts - 1
      completed := cu.completed ++ [xcmd.withStatus status] }

/-! ### Credits -/

/-- Returns the credit count before the call, or zero if there was none to take. -/
def cuHlsAllocCredit : Int × XrtCuHls :=
  if cu.credits ≠ 0 then (cu.credits, { cu with credits := cu.credits - 1 }) else (0, cu)

def cuHlsFreeCredit (count : Nat) : XrtCuHls :=
  { cu with credits := min (cu.credits + count) cu.maxCredits }

def cuHlsPeekCredit : Int := cu.credits

/-! ### Configuration and start -/

def XGQ_CMD_OP_START_CUIDX : BitVec 32 := 0x100
def XGQ_CMD_OP_START_CUIDX_KV : BitVec 32 := 0x102

variable (xcmd : KdsCommand)

/-- `hdr->opcode`, bits 15 to 0 of the first word. -/
def hdrOpcode : BitVec 32 := xcmd.word 0 &&& 0xFFFF

/-- `hdr->count`, bits 30 to 16 of the first word. -/
def hdrCount : Nat := ((xcmd.word 0 >>> 16) &&& 0x7FFF).toNat

/-- The number of argument words: the header takes two words and is not in the count. -/
def xgqNumReg : Nat := hdrCount xcmd / 4

/-- The writes of a register map whose first word is word `first` of the payload. -/
def regmapWrites (first numReg : Nat) : List RegWrite :=
  (List.range numReg).map fun i => ⟨ARGS + BitVec.ofNat 32 (i * 4), xcmd.word (first + i)⟩

/-- The writes of the {offset, value} pairs that start at word `first`; the loop steps by
two, so an odd count still reads a last pair. -/
def keyValWrites (first numReg : Nat) : List RegWrite :=
  (List.range ((numReg + 1) / 2)).map fun i =>
    ⟨xcmd.word (first + 2 * i), xcmd.word (first + 2 * i + 1)⟩

def cuHlsXgqStart : XrtCuHls :=
  cuWrites cu (regmapWrites xcmd 2 (xgqNumReg xcmd))

def cuHlsXgqStartKv : XrtCuHls :=
  cuWrites cu (keyValWrites xcmd 2 (xgqNumReg xcmd))

/-- `none` is the return value `-EINVAL`. -/
def cuHlsConfigure (kdsEcho : Bool) (cu : XrtCuHls) (xcmd : KdsCommand) : Option XrtCuHls :=
  if kdsEcho then some cu
  else match xcmd.payloadType with
    | .regmap => some (cuWrites cu (regmapWrites xcmd 0 (xcmd.isize / 4)))
    | .keyVal => some (cuWrites cu (keyValWrites xcmd 0 (xcmd.isize / 4)))
    | .xgqCmd =>
      if hdrOpcode xcmd = XGQ_CMD_OP_START_CUIDX then some (cuHlsXgqStart cu xcmd)
      else if hdrOpcode xcmd = XGQ_CMD_OP_START_CUIDX_KV then some (cuHlsXgqStartKv cu xcmd)
      else none

def cuHlsSubmitConfig (kdsEcho : Bool) (cu : XrtCuHls) (xcmd : KdsCommand) : Option XrtCuHls :=
  (cuHlsConfigure kdsEcho cu xcmd).map fun cu => { cu with submitted := cu.submitted ++ [xcmd] }

def cuHlsStart (kdsEcho : Bool) (cu : XrtCuHls) : XrtCuHls :=
  let cu := { cu with runCnts := cu.runCnts + 1 }
  if kdsEcho then cu else cuWrite32 cu CTRL CU_AP_START

/-! ### Checking for completion -/

/-- What the caller of `check` initialises the status to. -/
def xcuStatusZero : XcuStatus := ⟨0, 0, 0⟩

/-- `ap_ctrl_hs`: one task at a time, the done bit is clear on read. -/
def cuHlsCtrlHsCheck (force : Bool) (ctrlReg : BitVec 32) : XcuStatus × XrtCuHls :=
  if !force && cu.runCnts == 0 then (xcuStatusZero, cu)
  else if bitSet ctrlReg CU_AP_DONE then
    (⟨1, 1, ctrlReg⟩, cuMoveToComplete cu .completed)
  else (⟨0, 0, ctrlReg⟩, cu)

/-- `for (i = 0; i < n; i++) cu_move_to_complete(cu, KDS_COMPLETED)`. -/
def cuCompleteTimes : Nat → XrtCuHls → XrtCuHls
  | 0, cu => cu
  | n + 1, cu => cuCompleteTimes n (cuMoveToComplete cu .completed)

/-- `ap_ctrl_chain`: the next task may be set up before the running one is done, and the
CU stalls on a done task until `ap_continue` is written. -/
def cuHlsCtrlChainCheck (force : Bool) (ctrlReg : BitVec 32) : XcuStatus × XrtCuHls :=
  let usedCredit := cu.maxCredits - cu.credits
  if !force && usedCredit == 0 && cu.runCnts == 0 then (xcuStatusZero, cu)
  else
    let doneReg := cu.done
    let cu := { cu with done := 0 }
    let readyReg := if usedCredit != 0 && !bitSet ctrlReg CU_AP_START then 1 else 0
    if bitSet ctrlReg CU_AP_DONE then
      let cu := cuWrite32 cu CTRL CU_AP_CONTINUE
      (⟨doneReg + 1, readyReg, ctrlReg⟩, cuCompleteTimes (doneReg + 1) cu)
    else (⟨doneReg, readyReg, ctrlReg⟩, cuCompleteTimes doneReg cu)

def cuHlsCheck (kdsEcho : Bool) (cu : XrtCuHls) (force : Bool) (ctrlReg : BitVec 32) :
    XcuStatus × XrtCuHls :=
  if kdsEcho then (⟨1, 1, CU_AP_IDLE⟩, cuMoveToComplete cu .completed)
  else if cu.ctrlChain then cuHlsCtrlChainCheck cu force ctrlReg
  else cuHlsCtrlHsCheck cu force ctrlReg

/-- The interrupt handler. The chain protocol needs `ap_continue` before the interrupt can
be cleared, so a done task is acknowledged here and counted in `done`. -/
def cuHlsClearIntr (isr ctrlReg : BitVec 32) : XrtCuHls :=
  if cu.maxCredits = 1 then
    let cu :=
      if cu.ctrlChain && bitSet isr CU_INTR_DONE && bitSet ctrlReg CU_AP_DONE then
        cuWrite32 { cu with done := cu.done + 1 } CTRL CU_AP_CONTINUE
      else cu
    cuWrite32 cu ISR isr
  else cu

/-- Takes the oldest completed command off its list. -/
def cuHlsGetComplete : Option (KdsCommand × XrtCuHls) :=
  match cu.completed with
  | [] => none
  | xcmd :: rest => some (xcmd, { cu with completed := rest })

/-! ### Abort -/

def cuHlsResetDone (ctrlReg : BitVec 32) : Bool := !bitSet ctrlReg CU_AP_SW_RESET

/-- The reset loop: `time` after waiting for the reset bit to clear, `reads i` being the
`i`-th poll. The loop counts its 10 seconds down in steps of one millisecond, so
`rounds` never runs out before `time` does. -/
def resetWait (reads : Nat → BitVec 32) : (rounds i : Nat) → (time : Int) → Int
  | 0, _, time => time
  | rounds + 1, i, time =>
    let time := time - 1000
    if cuHlsResetDone (reads i) then time
    else if time > 0 then resetWait reads rounds (i + 1) time
    else time

/-- The software reset that an abort begins with. Returns whether the CU is taken to be
functional again. -/
def abortReset (reads : Nat → BitVec 32) : Bool × XrtCuHls :=
  if cu.swReset then
    let cu := cuWrite32 cu CTRL CU_AP_SW_RESET
    if resetWait reads 10000 0 10000000 ≥ 0 then (true, { cu with credits := cu.maxCredits })
    else (false, cu)
  else (false, cu)

/-- The matching submitted commands are moved to the completed list with status
`KDS_TIMEOUT`; `runCnts` stays as it is. The C function returns 0 for `true`. -/
def cuHlsAbort (matching : KdsCommand → Bool) (reads : Nat → BitVec 32) : Bool × XrtCuHls :=
  let reset := abortReset cu reads
  (reset.1,
    { reset.2 with
      submitted := cu.submitted.filter fun xcmd => !matching xcmd
      completed := cu.completed ++ (cu.submitted.filter matching).map (·.withStatus .timeout) })

/-! ### Whether the reset was seen -/

section Reset

variable {reads : Nat → BitVec 32}

/-- One of the polls that `cu_hls_abort` makes has found the reset bit clear. It stops at the first
such poll and makes no more than 10000. -/
def ResetSeen (reads : Nat → BitVec 32) : Prop :=
  ∃ i < 10000, cuHlsResetDone (reads i) = true ∧ ∀ j < i, cuHlsResetDone (reads j) = false

/-- Ten seconds are a whole number of rounds, so the time never falls below zero. -/
theorem resetWait_nonneg (rounds i : Nat) : 0 ≤ resetWait reads rounds i (rounds * 1000) := by
  induction rounds generalizing i with
  | zero => exact Int.le_refl _
  | succ rounds ih =>
    have left : ((rounds + 1 : Nat) : Int) * 1000 - 1000 = rounds * 1000 := by omega
    rw [resetWait, left]
    split_ifs
    · omega
    · exact ih (i + 1)
    · omega

/-- The test behind the loop cannot fail. -/
theorem abortReset_eq (reads : Nat → BitVec 32) : abortReset cu reads
      = if cu.swReset then
          (true, { cuWrite32 cu CTRL CU_AP_SW_RESET with credits := cu.maxCredits })
        else (false, cu) := by
  rw [abortReset]
  split_ifs with swReset waited
  · rfl
  · -- the last round leaves zero, which the test takes for a reset
    exact absurd (resetWait_nonneg 10000 0) waited
  · rfl

theorem cuHlsAbort_fst (matching : KdsCommand → Bool) (reads : Nat → BitVec 32) :
    (cuHlsAbort cu matching reads).1 = cu.swReset := by
  rw [cuHlsAbort, abortReset_eq]
  cases cu.swReset <;> rfl

theorem cuHlsAbort_credits (matching : KdsCommand → Bool) (reads : Nat → BitVec 32) :
    (cuHlsAbort cu matching reads).2.credits = if cu.swReset then cu.maxCredits else cu.credits := by
  rw [cuHlsAbort, abortReset_eq]
  cases cu.swReset <;> rfl

/-- Success tells of a reset exactly where there is none to report or a poll has seen it. -/
theorem cuHlsAbort_sound_iff (matching : KdsCommand → Bool) (reads : Nat → BitVec 32) :
    ((cuHlsAbort cu matching reads).1 = true
        ∧ (cuHlsAbort cu matching reads).2.credits = cu.maxCredits → ResetSeen reads)
      ↔ cu.swReset = false ∨ ResetSeen reads := by
  rw [cuHlsAbort_fst, cuHlsAbort_credits]
  cases cu.swReset with
  | false => simp
  | true => simp

/-- A CU that never leaves its reset: all 10000 polls fail, the abort reports success and the one
credit is back. -/
theorem cuHlsAbort_in_reset :
    (¬ ResetSeen fun _ => CU_AP_SW_RESET)
      ∧ (cuHlsAbort { xrtCuHlsInit false true with credits := 0 } (fun _ => true)
          fun _ => CU_AP_SW_RESET).1 = true
      ∧ (cuHlsAbort { xrtCuHlsInit false true with credits := 0 } (fun _ => true)
          fun _ => CU_AP_SW_RESET).2.credits = 1 := by
  refine ⟨?_, cuHlsAbort_fst _ _ _, cuHlsAbort_credits _ _ _⟩
  rintro ⟨_, _, done, _⟩
  change cuHlsResetDone CU_AP_SW_RESET = true at done
  exact absurd done (by decide)

end Reset

end Xrt.Cu
