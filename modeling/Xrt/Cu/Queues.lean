import Xrt.Cu.Hls
import Xrt.Lib.Run

/-!
# The queues of a compute unit

The queue functions of `xrt_cu.c` over the HLS core. A command is submitted to `pq`, moved
to `rq`, configured and started (then it is on the `submitted` list of the core), completed
by the hardware or aborted, moved to `cq`, and there handed to `notify_host` and freed.
The counters are the 32-bit counters of the source, maintained apart from the lists.

`none` is the dereference of the first entry of an empty list. Everything the environment
chooses (the event, the register values, a failing `submit_config`) is an argument.
-/
namespace Xrt.Cu

/-- The calls that give a command back to its submitter. -/
inductive HostCall where
  | notifyHost (id : Nat) (status : KdsStatus)
  | free (id : Nat)
  deriving DecidableEq, Repr

structure XrtCu where
  core : XrtCuHls
  /-- `info.protocol == CTRL_NONE`. -/
  ctrlNone : Bool
  pq : List KdsCommand
  numPq : BitVec 32
  rq : List KdsCommand
  numRq : BitVec 32
  numSq : BitVec 32
  cq : List KdsCommand
  numCq : BitVec 32
  hpq : List KdsCommand
  numHpq : BitVec 32
  /-- The clients that asked for their commands to be aborted. -/
  events : List Nat
  badState : Bool
  doneCnt : BitVec 32
  readyCnt : BitVec 32
  status : BitVec 32
  tick : BitVec 32
  startTick : BitVec 32
  /-- The number of commands submitted so far; the next one gets this address. -/
  nextId : Nat
  /-- Every `cb.notify_host` and `cb.free`, oldest first. -/
  hostCalls : List HostCall
  /-- The high priority commands that were processed, with their final status. -/
  hpqDone : List KdsCommand
  deriving DecidableEq, Repr

def initial (ctrlNone ctrlChain swReset : Bool) : XrtCu where
  core := xrtCuHlsInit ctrlChain swReset
  ctrlNone := ctrlNone
  pq := []
  numPq := 0
  rq := []
  numRq := 0
  numSq := 0
  cq := []
  numCq := 0
  hpq := []
  numHpq := 0
  events := []
  badState := false
  doneCnt := 0
  readyCnt := 0
  status := 0
  tick := 0
  startTick := 0
  nextId := 0
  hostCalls := []
  hpqDone := []

def CU_EXEC_DEFAULT_TTL : BitVec 32 := 10

def abortClient (client : Nat) (xcmd : KdsCommand) : Bool := xcmd.client == client

def abortHandle (handle : BitVec 32) (xcmd : KdsCommand) : Bool := xcmd.execBoHandle == handle

variable (xcu : XrtCu)

def firstEventClientOrNull : Option Nat := xcu.events.head?

/-! ### Completed queue -/

/-- `while (xcu->num_cq)`, with the counter as the number of rounds left. -/
def processCqLoop : Nat → XrtCu → Option XrtCu
  | 0, xcu => some xcu
  | rounds + 1, xcu =>
    match xcu.cq with
    | [] => none
    | xcmd :: rest =>
      processCqLoop rounds
        { xcu with
          cq := rest
          -- set by every command, so that only the last one counts
          badState := xcmd.status == .skcrashed
          hostCalls := xcu.hostCalls ++ [.notifyHost xcmd.id xcmd.status, .free xcmd.id]
          numCq := xcu.numCq - 1 }

def processCq : Option XrtCu := processCqLoop xcu.numCq.toNat xcu

/-! ### Submitted queue -/

/-- `while (xcmd)` over `xrt_cu_get_complete`; `rounds` is the number of completed commands. -/
def getCompleteLoop : Nat → XrtCu → XrtCu
  | 0, xcu => xcu
  | rounds + 1, xcu =>
    match cuHlsGetComplete xcu.core with
    | none => xcu
    | some (xcmd, core) =>
      getCompleteLoop rounds
        { xcu with core, cq := xcu.cq ++ [xcmd], numCq := xcu.numCq + 1, numSq := xcu.numSq - 1 }

def getComplete : XrtCu := getCompleteLoop xcu.core.completed.length xcu

theorem getCompleteLoop_eq (completed : List KdsCommand) (xcu : XrtCu)
    (these : xcu.core.completed = completed) :
    getCompleteLoop completed.length xcu =
      { xcu with
        core := { xcu.core with completed := [] }
        cq := xcu.cq ++ completed
        numCq := xcu.numCq + BitVec.ofNat 32 completed.length
        numSq := xcu.numSq - BitVec.ofNat 32 completed.length } := by
  induction completed generalizing xcu with
  | nil =>
    have core : { xcu.core with completed := [] } = xcu.core := by rw [← these]
    simp [getCompleteLoop, core]
  | cons xcmd rest ih =>
    simp only [List.length_cons, getCompleteLoop, cuHlsGetComplete, these]
    have count : BitVec.ofNat 32 (rest.length + 1) = 1 + BitVec.ofNat 32 rest.length := by
      rw [BitVec.ofNat_add, BitVec.add_comm]
      rfl
    rw [ih _ rfl, count, List.append_assoc, BitVec.add_assoc, sub_sub]
    rfl

theorem getComplete_eq : getComplete xcu =
      { xcu with
        core := { xcu.core with completed := [] }
        cq := xcu.cq ++ xcu.core.completed
        numCq := xcu.numCq + BitVec.ofNat 32 xcu.core.completed.length
        numSq := xcu.numSq - BitVec.ofNat 32 xcu.core.completed.length } :=
  getCompleteLoop_eq _ xcu rfl

/-- `xrt_cu_cmd_abort`, with its result recorded in `bad_state`. -/
def xrtCuCmdAbort (matching : KdsCommand → Bool) (reads : Nat → BitVec 32) : Bool × XrtCu :=
  let aborted := cuHlsAbort xcu.core matching reads
  (aborted.1, { xcu with core := aborted.2, badState := xcu.badState || !aborted.1 })

/-- The first client with an abort event gets its submitted commands aborted once the
event has been seen for `CU_EXEC_DEFAULT_TTL` ticks. -/
def abortEventClient (reads : Nat → BitVec 32) (xcu : XrtCu) : XrtCu :=
  match firstEventClientOrNull xcu with
  | none => xcu
  | some client =>
    if xcu.startTick = 0 then { xcu with startTick := xcu.tick }
    else if xcu.tick - xcu.startTick < CU_EXEC_DEFAULT_TTL then xcu
    else { (xrtCuCmdAbort xcu (abortClient client) reads).2 with startTick := 0 }

def returnCredits : XrtCu :=
  if xcu.readyCnt = 0 then xcu
  else { xcu with core := cuHlsFreeCredit xcu.core xcu.readyCnt.toNat, readyCnt := 0 }

/-- `__process_sq`. -/
def processSqUnchecked (reads : Nat → BitVec 32) (xcu : XrtCu) : XrtCu :=
  let xcu := returnCredits xcu
  if xcu.numSq = 0 then xcu else getComplete (abortEventClient reads xcu)

/-- `__xrt_cu_check`. The status of a crashed CU stays. -/
def xrtCuCheck (kdsEcho : Bool) (force : Bool) (ctrlReg : BitVec 32) (xcu : XrtCu) : XrtCu :=
  let checked := cuHlsCheck kdsEcho xcu.core force ctrlReg
  { xcu with
    core := checked.2
    doneCnt := xcu.doneCnt + BitVec.ofNat 32 checked.1.numDone
    readyCnt := xcu.readyCnt + BitVec.ofNat 32 checked.1.numReady
    status := if xcu.status = CU_AP_CRASHED then xcu.status else checked.1.newStatus }

def processSq (kdsEcho : Bool) (ctrlReg : BitVec 32) (reads : Nat → BitVec 32) (xcu : XrtCu) :
    XrtCu :=
  if xcu.numSq = 0 ∧ cuHlsPeekCredit xcu.core ≠ 0 then xcu
  else processSqUnchecked reads (xrtCuCheck kdsEcho false ctrlReg xcu)

/-! ### Run queue -/

/-- What the sweep over the run queue aborts while `client` is closing. -/
def sweeps (client : Nat) (xcmd : KdsCommand) : Bool :=
  xcmd.client == client || xcu.badState

/-- The branch of `process_rq` for a closing client. -/
def sweepRq (client : Nat) : XrtCu :=
  let swept := xcu.rq.filter (sweeps xcu client)
  { xcu with
    rq := xcu.rq.filter fun xcmd => !sweeps xcu client xcmd
    cq := xcu.cq ++ swept.map (·.withStatus .abort)
    numCq := xcu.numCq + BitVec.ofNat 32 swept.length
    numRq := xcu.numRq - BitVec.ofNat 32 swept.length }

/-- `submit_config` of the core, which may also fail for reasons of its own. -/
def xrtCuSubmitConfig (kdsEcho refused : Bool) (core : XrtCuHls) (xcmd : KdsCommand) :
    Option XrtCuHls :=
  if refused then none else cuHlsSubmitConfig kdsEcho core xcmd

/-- Submits and starts the command `xcmd` at the head of the run queue. A credit that was
taken is put back if the command cannot be configured. -/
def startHead (kdsEcho refused : Bool) (xcu : XrtCu) (xcmd : KdsCommand)
    (rest : List KdsCommand) : Bool × XrtCu :=
  let credit := cuHlsAllocCredit xcu.core
  if credit.1 = 0 then (false, { xcu with core := credit.2 })
  else
    match xrtCuSubmitConfig kdsEcho refused credit.2 xcmd with
    | none => (false, { xcu with core := cuHlsFreeCredit credit.2 1 })
    | some core =>
      (true,
        { xcu with
          core := cuHlsStart kdsEcho core
          rq := rest
          numSq := xcu.numSq + 1
          numRq := xcu.numRq - 1 })

/-- The first component is the return value: whether a command was started. -/
def processRq (kdsEcho refused : Bool) (xcu : XrtCu) : Option (Bool × XrtCu) :=
  if xcu.numRq = 0 then some (false, xcu)
  else
    match firstEventClientOrNull xcu with
    | some client => some (false, sweepRq xcu client)
    | none =>
      match xcu.rq with
      | [] => none
      | xcmd :: rest => some (startHead kdsEcho refused xcu xcmd rest)

/-! ### Pending queue -/

def processPq : XrtCu :=
  if xcu.numPq = 0 then xcu
  else { xcu with rq := xcu.rq ++ xcu.pq, pq := [], numRq := xcu.numRq + xcu.numPq, numPq := 0 }

def xrtCuSubmit (xcmd : KdsCommand) : XrtCu :=
  { xcu with
    pq := xcu.pq ++ [{ xcmd with id := xcu.nextId }]
    numPq := xcu.numPq + 1
    nextId := xcu.nextId + 1 }

/-! ### High priority queue -/

def tryAbortCmd (reads : Nat → BitVec 32) (xcu : XrtCu) (abortCmd : KdsCommand) :
    KdsCommand × XrtCu :=
  let handle := abortCmd.word 0
  match xcu.rq.find? (abortHandle handle) with
  | some xcmd =>
    (abortCmd.withStatus .completed,
      { xcu with
        rq := xcu.rq.eraseP (abortHandle handle)
        cq := xcu.cq ++ [xcmd.withStatus .abort]
        numCq := xcu.numCq + 1
        numRq := xcu.numRq - 1 })
  | none =>
    if xcu.numSq = 0 then (abortCmd, xcu)
    else
      let aborted := xrtCuCmdAbort xcu (abortHandle handle) reads
      (abortCmd.withStatus (if aborted.1 then .completed else .timeout), getComplete aborted.2)

/-- One round of the loop: the command is tried if it is an abort, and leaves the queue. -/
def processHpqOne (reads : Nat → BitVec 32) (xcu : XrtCu) (xcmd : KdsCommand)
    (rest : List KdsCommand) : XrtCu :=
  let tried := if xcmd.opcode = .abort then tryAbortCmd reads xcu xcmd else (xcmd, xcu)
  { tried.2 with
    hpq := rest
    numHpq := xcu.numHpq - 1
    hpqDone := xcu.hpqDone ++ [tried.1] }

/-- `list_for_each_entry_safe` over the queue; `reads i` are the polls of the `i`-th abort. -/
def processHpqLoop (reads : Nat → Nat → BitVec 32) : List KdsCommand → Nat → XrtCu → XrtCu
  | [], _, xcu => xcu
  | xcmd :: rest, i, xcu =>
    processHpqLoop reads rest (i + 1) (processHpqOne (reads i) xcu xcmd rest)

def processHpq (reads : Nat → Nat → BitVec 32) (xcu : XrtCu) : XrtCu :=
  if xcu.numHpq = 0 then xcu else processHpqLoop reads xcu.hpq 0 xcu

def xrtCuHpqSubmit (xcmd : KdsCommand) : XrtCu :=
  if xcu.ctrlNone then xcu
  else { xcu with hpq := xcu.hpq ++ [xcmd], numHpq := xcu.numHpq + 1 }

/-! ### Client events -/

def xrtCuAbort (client : Nat) : XrtCu :=
  if client ∈ xcu.events then xcu else { xcu with events := xcu.events ++ [client] }

def xrtCuAbortDone (client : Nat) : XrtCu :=
  { xcu with events := xcu.events.erase client }

/-! ### The scheduler -/

/-- What the environment answers during one scheduler iteration: the failures of
`submit_config`, the control register, and the polls of each reset. -/
structure Answers where
  refused : Nat → Bool
  ctrlReg : BitVec 32
  reads : Nat → BitVec 32
  abortReads : Nat → Nat → BitVec 32

/-- `while (process_rq(xcu));`. A round that goes on takes one command off the run queue. -/
def processRqLoop (kdsEcho : Bool) (refused : Nat → Bool) : Nat → XrtCu → Option XrtCu
  | 0, xcu => some xcu
  | rounds + 1, xcu => do
    let (started, xcu) ← processRq kdsEcho (refused rounds) xcu
    if started then processRqLoop kdsEcho refused rounds xcu else return xcu

def xrtCuProcessQueues (kdsEcho : Bool) (answers : Answers) (xcu : XrtCu) : Option XrtCu := do
  let xcu := processPq xcu
  let xcu ← processRqLoop kdsEcho answers.refused (xcu.rq.length + 1) xcu
  let xcu ← processCq xcu
  let xcu := processSq kdsEcho answers.ctrlReg answers.reads xcu
  return processHpq answers.abortReads xcu

/-- What can happen to the CU, in any order: the calls of its users, each function of its
scheduler thread with the answers of the environment, a whole scheduler iteration, the
timer and the interrupt handler. -/
inductive Event where
  | submit (xcmd : KdsCommand)
  | hpqSubmit (xcmd : KdsCommand)
  | abort (client : Nat)
  | abortDone (client : Nat)
  | processPq
  | processRq (refused : Bool)
  | processCq
  | check (force : Bool) (ctrlReg : BitVec 32)
  | processSq (ctrlReg : BitVec 32) (reads : Nat → BitVec 32)
  | processSqUnchecked (reads : Nat → BitVec 32)
  | processHpq (reads : Nat → Nat → BitVec 32)
  | processQueues (answers : Answers)
  | timer
  | clearIntr (isr ctrlReg : BitVec 32)

def step (kdsEcho : Bool) (xcu : XrtCu) : Event → Option XrtCu
  | .submit xcmd => some (xrtCuSubmit xcu xcmd)
  | .hpqSubmit xcmd => some (xrtCuHpqSubmit xcu xcmd)
  | .abort client => some (xrtCuAbort xcu client)
  | .abortDone client => some (xrtCuAbortDone xcu client)
  | .processPq => some (processPq xcu)
  | .processRq refused => (processRq kdsEcho refused xcu).map (·.2)
  | .processCq => processCq xcu
  | .check force ctrlReg => some (xrtCuCheck kdsEcho force ctrlReg xcu)
  | .processSq ctrlReg reads => some (processSq kdsEcho ctrlReg reads xcu)
  | .processSqUnchecked reads => some (processSqUnchecked reads xcu)
  | .processHpq reads => some (processHpq reads xcu)
  | .processQueues answers => xrtCuProcessQueues kdsEcho answers xcu
  | .timer => some { xcu with tick := xcu.tick + 1 }
  | .clearIntr isr ctrlReg => some { xcu with core := cuHlsClearIntr xcu.core isr ctrlReg }

end Xrt.Cu
