import Xrt.Cu.Hls

/-!
# The soft-kernel compute unit core

The functions of `cu_scu.c`, outside of the echo mode. Driver and soft kernel share a file of
registers: a control word, the arguments of the command behind it and behind these the code that the
kernel returns. A soft kernel that crashed stays so.
-/
namespace Xrt.Scu

open Cu (KdsStatus)

def CU_AP_START : BitVec 32 := 0x1

def CU_AP_DONE : BitVec 32 := 0x2

def CU_AP_CRASHED : BitVec 32 := 0xFFFFFFFF

def EIO : BitVec 32 := 5

/-- `kds_command`: `data` are the arguments in its payload. -/
structure Command where
  id : Nat
  data : List (BitVec 32)
  status : KdsStatus := .new
  rcode : BitVec 32 := 0
deriving DecidableEq, Repr

structure XrtCuScu where
  maxCredits : Int
  credits : Int
  runCnts : Int
  /-- `vaddr`. -/
  cuRegfile : Nat → BitVec 32
  numReg : Nat
  skCrashed : Bool
  /-- The count of `sc_sem`. -/
  scSem : Nat
  submitted : List Command
  completed : List Command

structure XcuStatus where
  numDone : Nat := 0
  numReady : Nat := 0
  newStatus : BitVec 32 := 0
  rcode : BitVec 32 := 0
deriving DecidableEq, Repr

namespace XrtCuScu

def init (cuRegfile : Nat → BitVec 32) : XrtCuScu where
  maxCredits := 1
  credits := 1
  runCnts := 0
  cuRegfile := cuRegfile
  numReg := 0
  skCrashed := false
  scSem := 0
  submitted := []
  completed := []

variable (scu : XrtCuScu)

def cuMoveToComplete (status : KdsStatus) (rcode : BitVec 32) : XrtCuScu :=
  match scu.submitted with
  | [] => scu
  | xcmd :: rest =>
    { scu with
      submitted := rest
      completed := scu.completed ++ [{ xcmd with status := status, rcode := rcode }] }

/-- Returns the number of credits there were. -/
def scuAllocCredit : Int × XrtCuScu :=
  if scu.credits ≠ 0 then (scu.credits, { scu with credits := scu.credits - 1 }) else (0, scu)

def scuFreeCredit (count : Nat) : XrtCuScu :=
  { scu with credits := min (scu.credits + count) scu.maxCredits }

def scuConfigure (data : List (BitVec 32)) : XrtCuScu :=
  { scu with
    numReg := data.length
    cuRegfile := fun i =>
      if 1 ≤ i ∧ i ≤ data.length then data.getD (i - 1) 0 else scu.cuRegfile i }

def writeCtrl (ctrl : BitVec 32) : XrtCuScu :=
  { scu with cuRegfile := Function.update scu.cuRegfile 0 ctrl }

/-- The soft kernel leaves its return code behind the arguments. -/
def writeRcode (rcode : BitVec 32) : XrtCuScu :=
  { scu with cuRegfile := Function.update scu.cuRegfile (scu.numReg + 1) rcode }

/-- The first part of `scu_start`, up to the semaphore. -/
def markStart : XrtCuScu :=
  { scu with runCnts := scu.runCnts + 1 }.writeCtrl CU_AP_START

def upSem : XrtCuScu := { scu with scSem := scu.scSem + 1 }

def downSem : XrtCuScu := { scu with scSem := scu.scSem - 1 }

def scuStart : XrtCuScu := scu.markStart.upSem

def scuCtrlHsCheck (status : XcuStatus) (force : Bool) : XrtCuScu × XcuStatus :=
  if force = false ∧ scu.runCnts = 0 then (scu, status)
  else
    let ctrlReg := scu.cuRegfile 0
    if ctrlReg = CU_AP_DONE ∨ scu.skCrashed then
      let scu := { scu with runCnts := scu.runCnts - 1 }
      if scu.skCrashed then
        (scu.cuMoveToComplete .skcrashed EIO, ⟨1, 1, CU_AP_CRASHED, EIO⟩)
      else
        let rcode := scu.cuRegfile (scu.numReg + 1)
        (scu.cuMoveToComplete .completed rcode, ⟨1, 1, ctrlReg, rcode⟩)
    else (scu, ⟨0, 0, ctrlReg, 0⟩)

def scuCheck (status : XcuStatus) (force : Bool) : XrtCuScu × XcuStatus :=
  scu.scuCtrlHsCheck status force

def scuSubmitConfig (xcmd : Command) : XrtCuScu :=
  let scu := scu.scuConfigure xcmd.data
  { scu with submitted := scu.submitted ++ [xcmd] }

def scuGetComplete : Option (Command × XrtCuScu) :=
  match scu.completed with
  | [] => none
  | xcmd :: rest => some (xcmd, { scu with completed := rest })

/-! ### Checks -/

/-- The check reads the register and finds a command done. -/
def FindsDone (force : Bool) : Prop :=
  (force = true ∨ scu.runCnts ≠ 0) ∧ scu.cuRegfile 0 = CU_AP_DONE

variable {scu : XrtCuScu} {force : Bool}

theorem scuCheck_of_done (alive : scu.skCrashed = false) (done : scu.FindsDone force) :
    (scu.scuCheck {} force).1
        = { scu with runCnts := scu.runCnts - 1 }.cuMoveToComplete .completed
            (scu.cuRegfile (scu.numReg + 1))
      ∧ (scu.scuCheck {} force).2.numReady = 1 := by
  obtain ⟨reads, done⟩ := done
  -- the early return is taken only without force and without a running command
  have noSkip : ¬ (force = false ∧ scu.runCnts = 0) := by
    rintro ⟨rfl, none⟩
    exact reads.elim Bool.false_ne_true fun some => some none
  simp [scuCheck, scuCtrlHsCheck, noSkip, done, alive]

theorem scuCheck_of_not_done (alive : scu.skCrashed = false) (other : ¬ scu.FindsDone force) :
    (scu.scuCheck {} force).1 = scu ∧ (scu.scuCheck {} force).2.numReady = 0 := by
  by_cases skip : force = false ∧ scu.runCnts = 0
  · simp [scuCheck, scuCtrlHsCheck, skip]
  · have notDone : scu.cuRegfile 0 ≠ CU_AP_DONE := fun done => other ⟨by
      by_contra neither
      rw [not_or, Bool.not_eq_true, not_not] at neither
      exact skip neither, done⟩
    simp [scuCheck, scuCtrlHsCheck, skip, notDone, alive]

theorem scuCheck_shared (force : Bool) : (scu.scuCheck {} force).1.cuRegfile = scu.cuRegfile ∧
      (scu.scuCheck {} force).1.scSem = scu.scSem := by
  simp only [scuCheck, scuCtrlHsCheck, cuMoveToComplete]
  split_ifs
  · exact ⟨rfl, rfl⟩
  · split <;> exact ⟨rfl, rfl⟩
  · split <;> exact ⟨rfl, rfl⟩
  · exact ⟨rfl, rfl⟩

section

variable (alive : scu.skCrashed = false)
include alive

theorem scuCheck_submitted_nil (idle : scu.submitted = []) :
    (scu.scuCheck {} force).1.submitted = [] := by
  by_cases done : scu.FindsDone force
  · rw [(scuCheck_of_done alive done).1]
    simp only [cuMoveToComplete, idle]
  · rw [(scuCheck_of_not_done alive done).1, idle]

theorem scuCheck_skCrashed : (scu.scuCheck {} force).1.skCrashed = false := by
  by_cases done : scu.FindsDone force
  · rw [(scuCheck_of_done alive done).1, cuMoveToComplete]
    split <;> exact alive
  · rw [(scuCheck_of_not_done alive done).1, alive]

theorem scuCheck_completes_iff : (scu.scuCheck {} force).1.completed ≠ scu.completed ↔
      scu.submitted ≠ [] ∧ scu.FindsDone force := by
  by_cases done : scu.FindsDone force
  · rw [(scuCheck_of_done alive done).1]
    cases scu.submitted <;> simp [cuMoveToComplete, done]
  · rw [(scuCheck_of_not_done alive done).1]
    simp [done]

end

end XrtCuScu

end Xrt.Scu
