import Xrt.Scu.Core
import Xrt.Lib.Run

/-!
# The CU thread over a soft kernel

`xrt_cu_intr_thread` without aborts and high priority commands. The thread moves from one access to
the core to the next; in between commands are submitted and the soft kernel finishes the command
that is running. The core has no functions for interrupts, and calls of them are taken to do nothing.

The control word keeps its value after a command is done, so the status that an idle CU records is
that of a command that was already counted.
-/
namespace Xrt.Scu

open Lib

/-- The next access of the thread. -/
inductive Pc
  | rq
  | check
  | checkAgain
  | sq
  | idle
  | sleep
  | pq
deriving DecidableEq, Repr

/-- `xrt_cu`. The lengths of the other queues are not counted apart. -/
structure XrtCu where
  core : XrtCuScu
  pq : List Command
  rq : List Command
  cq : List Command
  numSq : Nat
  doneCnt : Nat
  readyCnt : Nat
  status : BitVec 32
  rcode : BitVec 32
  forceIntr : Bool
  interruptUsed : Bool
  pollCount : Nat
  pollThreshold : Nat
  /-- The commands the host was notified of. -/
  notified : List Command
  pc : Pc

namespace XrtCu

def init (cuRegfile : Nat → BitVec 32) (forceIntr : Bool) (pollThreshold : Nat) : XrtCu where
  core := .init cuRegfile
  pq := []
  rq := []
  cq := []
  numSq := 0
  doneCnt := 0
  readyCnt := 0
  status := 0
  rcode := 0
  forceIntr := forceIntr
  interruptUsed := forceIntr
  pollCount := 0
  pollThreshold := pollThreshold
  notified := []
  pc := .rq

/-! ### The functions of the thread -/

variable (xcu : XrtCu)

/-- `__xrt_cu_check`. -/
def xrtCuCheck (force : Bool) : XrtCu :=
  let checked := xcu.core.scuCheck {} force
  { xcu with
    core := checked.1
    doneCnt := xcu.doneCnt + checked.2.numDone
    readyCnt := xcu.readyCnt + checked.2.numReady
    -- the status of a crashed CU is kept
    status := if xcu.status ≠ CU_AP_CRASHED then checked.2.newStatus else xcu.status
    rcode := checked.2.rcode }

/-- `none`: the run queue is empty or there is no credit. -/
def processRq : Option XrtCu :=
  match xcu.rq with
  | [] => none
  | xcmd :: rest =>
    let credit := xcu.core.scuAllocCredit
    if credit.1 = 0 then none
    else some
      { xcu with
        core := (credit.2.scuSubmitConfig xcmd).scuStart
        pollCount := 0
        interruptUsed := xcu.forceIntr && xcu.interruptUsed
        numSq := xcu.numSq + 1
        rq := rest }

def processCq : XrtCu := { xcu with notified := xcu.notified ++ xcu.cq, cq := [] }

def getCompleteLoop : List Command → XrtCu → XrtCu
  | [], xcu => xcu
  | _ :: rest, xcu =>
    match xcu.core.scuGetComplete with
    | none => xcu
    | some (xcmd, core) =>
      getCompleteLoop rest
        { xcu with core := core, cq := xcu.cq ++ [xcmd], numSq := xcu.numSq - 1 }

/-- `__process_sq`. -/
def processSq : XrtCu :=
  let xcu := { xcu with core := xcu.core.scuFreeCredit xcu.readyCnt, readyCnt := 0 }
  if xcu.numSq = 0 then xcu else getCompleteLoop xcu.core.completed xcu

def processPq : XrtCu := { xcu with rq := xcu.rq ++ xcu.pq, pq := [] }

/-- In the polling mode the thread counts its rounds and changes to interrupts in the end. -/
def poll : XrtCu :=
  if xcu.interruptUsed then xcu
  else
    { xcu with
      pollCount := xcu.pollCount + 1
      interruptUsed := xcu.pollThreshold ≤ xcu.pollCount + 1 }

def thread : XrtCu :=
  match xcu.pc with
  | .rq =>
    match xcu.processRq with
    | some xcu => xcu
    | none =>
      let xcu := xcu.processCq
      { xcu with pc := if xcu.numSq ≠ 0 ∨ xcu.core.credits = 0 then .check else .idle }
  | .check =>
    let xcu := xcu.xrtCuCheck false
    -- with interrupts the thread sleeps and checks once more
    { xcu with
      pc := if xcu.interruptUsed ∧ (xcu.doneCnt = 0 ∨ xcu.readyCnt = 0) then .checkAgain else .sq }
  | .checkAgain => { xcu.xrtCuCheck false with pc := .sq }
  | .sq => { xcu.processSq.poll with pc := .idle }
  | .idle =>
    if xcu.rq ≠ [] then { xcu with pc := .rq }
    else if xcu.numSq = 0 ∧ xcu.cq = [] then
      -- record the status before sleep
      let xcu := if xcu.pq = [] then xcu.xrtCuCheck true else xcu
      { xcu with pc := .sleep }
    else { xcu with pc := .pq }
  | .sleep => { xcu with pc := .pq }
  | .pq => { xcu.processPq with pc := .rq }

/-! ### Runs -/

inductive Event
  | submit (id : Nat) (data : List (BitVec 32))
  /-- The soft kernel is done with the running command. -/
  | finish (rcode : BitVec 32)
  | thread
deriving DecidableEq, Repr

def step : Event → Option XrtCu
  | .submit id data => some { xcu with pq := xcu.pq ++ [{ id := id, data := data }] }
  | .finish rcode =>
    if xcu.core.submitted ≠ [] ∧ xcu.core.cuRegfile 0 = CU_AP_START then
      some { xcu with core := (xcu.core.writeRcode rcode).writeCtrl CU_AP_DONE }
    else none
  | .thread => some xcu.thread

/-! ### The accounts -/

/-- What the accounts are to say: as many commands run as are counted, there is at most one credit,
and none while a command runs. -/
def Accounts : Prop :=
  xcu.core.runCnts = xcu.core.submitted.length ∧ xcu.core.credits ≤ 1 ∧
    (xcu.core.submitted ≠ [] → xcu.core.credits = 0)

def Checks : Bool → Prop
  | false => xcu.pc = .check ∨ xcu.pc = .checkAgain
  | true => xcu.pc = .idle ∧ xcu.rq = [] ∧ xcu.numSq = 0 ∧ xcu.cq = [] ∧ xcu.pq = []

theorem xrtCuCheck_core (force : Bool) :
    (xcu.xrtCuCheck force).core = (xcu.core.scuCheck {} force).1 := rfl

theorem xrtCuCheck_readyCnt (force : Bool) : (xcu.xrtCuCheck force).readyCnt
      = xcu.readyCnt + (xcu.core.scuCheck {} force).2.numReady := rfl

theorem thread_core_of_checks {xcu : XrtCu} {force : Bool} (checks : xcu.Checks force) :
    xcu.thread.core = (xcu.xrtCuCheck force).core := by
  cases force with
  | false => rcases checks with pc | pc <;> simp only [thread, pc]
  | true =>
    obtain ⟨pc, rq, numSq, cq, pq⟩ := checks
    simp [thread, pc, rq, numSq, cq, pq]

/-- A check that sees the running command done moves that command to the completed ones. -/
def MovesDone : Event → Prop
  | .thread => ∀ force xcmd rest, xcu.Checks force → xcu.core.submitted = xcmd :: rest →
      xcu.core.cuRegfile 0 = CU_AP_DONE →
      xcu.thread.core.submitted = rest ∧
        xcu.thread.core.completed = xcu.core.completed ++ [{ xcmd with
          status := .completed, rcode := xcu.core.cuRegfile (xcu.core.numReg + 1) }]
  | _ => True

/-- The forced check of an idle CU does not find the value that the last command left behind. -/
def NotDoneIdle : Event → Prop
  | .thread => xcu.Checks true → xcu.core.cuRegfile 0 ≠ CU_AP_DONE
  | _ => True

/-- A credit is free, or it is on its way back, or a command runs with it. -/
structure Inv (xcu : XrtCu) : Prop where
  alive : xcu.core.skCrashed = false
  maxCredits : xcu.core.maxCredits = 1
  runs : xcu.core.runCnts = xcu.core.submitted.length
  nonneg : 0 ≤ xcu.core.credits
  credits : xcu.core.credits + xcu.readyCnt + xcu.core.submitted.length = 1
  numSq : xcu.numSq = xcu.core.submitted.length + xcu.core.completed.length

theorem inv_init (cuRegfile : Nat → BitVec 32) (forceIntr : Bool) (pollThreshold : Nat) :
    (init cuRegfile forceIntr pollThreshold).Inv := by
  constructor <;> simp [init, XrtCuScu.init]

namespace Inv

variable {xcu : XrtCu}

theorem accounts (inv : xcu.Inv) : xcu.Accounts := by
  -- with one credit in all, a running command leaves none
  have credits := inv.credits
  have nonneg := inv.nonneg
  refine ⟨inv.runs, by omega, fun running => ?_⟩
  have one := List.length_pos_iff.mpr running
  omega

/-- The invariant reads the core, the two counters and nothing else. -/
theorem congr {ycu : XrtCu} (inv : xcu.Inv) (core : ycu.core = xcu.core)
    (readyCnt : ycu.readyCnt = xcu.readyCnt) (numSq : ycu.numSq = xcu.numSq) : ycu.Inv := by
  obtain ⟨alive, maxCredits, runs, nonneg, credits, counted⟩ := inv
  constructor <;> simpa only [core, readyCnt, numSq]

theorem check {force : Bool} (inv : xcu.Inv)
    (running : xcu.core.FindsDone force → xcu.core.submitted ≠ []) :
    (xcu.xrtCuCheck force).Inv := by
  by_cases done : xcu.core.FindsDone force
  · obtain ⟨core, ready⟩ := XrtCuScu.scuCheck_of_done inv.alive done
    obtain ⟨xcmd, rest, submitted⟩ := List.exists_cons_of_ne_nil (running done)
    obtain ⟨alive, maxCredits, runs, nonneg, credits, counted⟩ := inv
    rw [submitted, List.length_cons] at runs credits counted
    -- the running command's credit becomes one on its way back
    constructor <;> simp only [xrtCuCheck, core, ready, XrtCuScu.cuMoveToComplete, submitted,
      List.length_append, List.length_cons, List.length_nil]
    · exact alive
    · exact maxCredits
    · omega
    · exact nonneg
    · omega
    · omega
  · obtain ⟨core, ready⟩ := XrtCuScu.scuCheck_of_not_done inv.alive done
    refine inv.congr core ?_ rfl
    rw [xrtCuCheck_readyCnt, ready, Nat.add_zero]

/-- Without force only a CU that runs a command is read. -/
theorem running_of_findsDone (inv : xcu.Inv) (done : xcu.core.FindsDone false) :
    xcu.core.submitted ≠ [] := by
  have counted := done.1.resolve_left Bool.false_ne_true
  rintro idle
  rw [inv.runs, idle] at counted
  exact counted rfl

theorem processRq {started : XrtCu} (inv : xcu.Inv) (starts : xcu.processRq = some started) :
    started.Inv := by
  unfold XrtCu.processRq XrtCuScu.scuAllocCredit at starts
  split at starts
  · cases starts
  · obtain ⟨alive, maxCredits, runs, nonneg, credits, counted⟩ := inv
    by_cases free : xcu.core.credits = 0
    · simp [free] at starts
    · simp only [free, ne_eq, not_false_eq_true, if_true, if_false, Option.some.injEq] at starts
      subst starts
      -- the credit goes to the command that starts
      constructor <;> simp only [XrtCuScu.scuSubmitConfig, XrtCuScu.scuConfigure,
        XrtCuScu.scuStart, XrtCuScu.markStart, XrtCuScu.upSem, XrtCuScu.writeCtrl,
        List.length_append, List.length_cons, List.length_nil] <;> omega

theorem getCompleteLoop (completed : List Command) (inv : xcu.Inv)
    (these : xcu.core.completed = completed) : (getCompleteLoop completed xcu).Inv := by
  induction completed generalizing xcu with
  | nil => exact inv
  | cons xcmd rest ih =>
    obtain ⟨alive, maxCredits, runs, nonneg, credits, counted⟩ := inv
    simp only [XrtCu.getCompleteLoop, XrtCuScu.scuGetComplete, these]
    refine ih ⟨alive, maxCredits, runs, nonneg, credits, ?_⟩ rfl
    rw [these, List.length_cons] at counted
    show xcu.numSq - 1 = xcu.core.submitted.length + rest.length
    omega

theorem processSq (inv : xcu.Inv) : xcu.processSq.Inv := by
  -- the credits on their way back are given back, and the cap does not cut any
  have returned : { xcu with
      core := xcu.core.scuFreeCredit xcu.readyCnt, readyCnt := 0 }.Inv := by
    obtain ⟨alive, maxCredits, runs, nonneg, credits, counted⟩ := inv
    constructor <;> simp only [XrtCuScu.scuFreeCredit] <;> omega
  simp only [XrtCu.processSq]
  split_ifs
  · exact returned
  · exact returned.getCompleteLoop _ rfl

theorem poll (inv : xcu.Inv) : xcu.poll.Inv := by
  unfold XrtCu.poll
  split_ifs
  · exact inv
  · exact inv.congr rfl rfl rfl

theorem thread (inv : xcu.Inv) (notDone : xcu.NotDoneIdle .thread) : xcu.thread.Inv := by
  have checked := inv.check inv.running_of_findsDone
  unfold XrtCu.thread
  cases pc : xcu.pc with
  | rq =>
    cases starts : xcu.processRq with
    | some started => exact inv.processRq starts
    | none => exact inv.congr rfl rfl rfl
  | check => exact checked.congr rfl rfl rfl
  | checkAgain => exact checked.congr rfl rfl rfl
  | sq => exact inv.processSq.poll.congr rfl rfl rfl
  | idle =>
    split_ifs with queued rest pending
    · exact inv.congr rfl rfl rfl
    · -- the forced check finds no command done, so it changes nothing
      have reg := notDone ⟨pc, not_not.mp queued, rest.1, rest.2, pending⟩
      exact (inv.check fun done => absurd done.2 reg).congr rfl rfl rfl
    · exact inv.congr rfl rfl rfl
    · exact inv.congr rfl rfl rfl
  | sleep => exact inv.congr rfl rfl rfl
  | pq => exact inv.congr rfl rfl rfl

theorem step {next : XrtCu} (event : Event) (inv : xcu.Inv) (notDone : xcu.NotDoneIdle event)
    (stepped : xcu.step event = some next) : next.Inv := by
  cases event with
  | submit id data =>
    cases stepped
    exact inv.congr rfl rfl rfl
  | finish rcode =>
    simp only [XrtCu.step] at stepped
    split_ifs at stepped
    cases stepped
    obtain ⟨alive, maxCredits, runs, nonneg, credits, counted⟩ := inv
    exact ⟨alive, maxCredits, runs, nonneg, credits, counted⟩
  | thread =>
    cases stepped
    exact inv.thread notDone

theorem movesDone (event : Event) (inv : xcu.Inv) : xcu.MovesDone event := by
  cases event with
  | submit id data => trivial
  | finish rcode => trivial
  | thread =>
    intro force xcmd rest checks submitted done
    have runs := inv.runs
    rw [submitted, List.length_cons] at runs
    cases force with
    | true =>
      -- an idle CU runs no command
      have counted := inv.numSq
      rw [submitted, List.length_cons, checks.2.2.1] at counted
      omega
    | false =>
      have finds : xcu.core.FindsDone false := ⟨Or.inr (by omega), done⟩
      rw [thread_core_of_checks checks, xrtCuCheck_core,
        (XrtCuScu.scuCheck_of_done inv.alive finds).1]
      simp [XrtCuScu.cuMoveToComplete, submitted]

theorem idle_breaks (inv : xcu.Inv) (idle : xcu.Checks true)
    (done : xcu.core.cuRegfile 0 = CU_AP_DONE) : ¬ xcu.thread.Accounts := by
  have finds : xcu.core.FindsDone true := ⟨Or.inl rfl, done⟩
  have none : xcu.core.submitted = [] := by
    have counted := inv.numSq
    rw [idle.2.2.1] at counted
    exact List.length_eq_zero_iff.mp (by omega)
  have runs := inv.runs
  -- one command less is counted, and none was moved
  rintro ⟨counted, -⟩
  rw [thread_core_of_checks idle, xrtCuCheck_core,
    (XrtCuScu.scuCheck_of_done inv.alive finds).1] at counted
  simp only [XrtCuScu.cuMoveToComplete, none, List.length_nil] at counted runs
  omega

end Inv

/-- The accounts are right all along and every check moves the command it sees done, exactly when
no forced check of the idle CU reads the value of an earlier command. -/
theorem accounts_iff (cuRegfile : Nat → BitVec 32) (forceIntr : Bool) (pollThreshold : Nat)
    (events : List Event) :
    (Always step Accounts (init cuRegfile forceIntr pollThreshold) events ∧
      Along step MovesDone (init cuRegfile forceIntr pollThreshold) events) ↔
      Along step NotDoneIdle (init cuRegfile forceIntr pollThreshold) events := by
  refine always_along_iff (P := Inv) (fun _ event _ inv met made => inv.step event met made)
    (fun _ inv => inv.accounts) (fun _ event inv _ => inv.movesDone event) ?_
    (inv_init _ _ _) events
  intro xcu event inv failed
  cases event with
  | submit id data => exact absurd trivial failed
  | finish rcode => exact absurd trivial failed
  | thread =>
    obtain ⟨idle, done⟩ : xcu.Checks true ∧ xcu.core.cuRegfile 0 = CU_AP_DONE := by
      simpa [NotDoneIdle] using failed
    exact Or.inr ⟨xcu.thread, rfl, inv.idle_breaks idle done⟩

/-- A command is done, the CU is idle, and a second command is started and done. -/
def idleBetween : List Event :=
  .submit 0 [] :: List.replicate 7 .thread ++ .finish 0 :: List.replicate 10 .thread
    ++ .submit 1 [] :: List.replicate 4 .thread ++ [.finish 0]

/-- The second command is not counted, the check does not see it done, and it keeps running on a CU
that has a credit. -/
theorem idle_check_loses_command :
    ∃ xcu, run step (init (fun _ => 0) false 750) idleBetween = some xcu ∧ xcu.Checks false ∧
      xcu.core.cuRegfile 0 = CU_AP_DONE ∧ xcu.core.runCnts = 0 ∧
      xcu.core.submitted.map Command.id = [1] ∧ xcu.thread.core.submitted.map Command.id = [1] ∧
      xcu.thread.thread.core.submitted.map Command.id = [1] ∧
      xcu.thread.thread.core.credits = 1 :=
  ⟨_, rfl, Or.inl rfl, rfl, rfl, rfl, rfl, rfl, rfl⟩

end XrtCu

end Xrt.Scu
