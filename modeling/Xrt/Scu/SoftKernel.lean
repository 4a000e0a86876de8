import Xrt.Scu.Core
import Xrt.Lib.Run

/-!
# Driver and soft kernel

Two actors share the control word and the semaphore of a soft-kernel CU. The driver waits for the
kernel to be ready, and then submits, starts and checks one command at a time. The process reports
that it is ready, and from then on reports that it is done, each time before it waits for the next
command. They are interleaved at their accesses to what they share.

The report reads `CU_AP_START` as the command that the process has run. The driver writes that value
before the process takes the command from the semaphore.
-/
namespace Xrt.Scu

open Lib

/-- Where the driver is with its command. -/
inductive CuPc
  | idle
  /-- before `scu_start` -/
  | configured
  /-- in `scu_start`, before the semaphore -/
  | marked
  | running
deriving DecidableEq, Repr

/-- Where the process is. -/
inductive SkPc
  /-- before it reports ready -/
  | init
  /-- before it calls `zocl_scu_wait_cmd_sk` -/
  | report
  /-- it has read that the CU is running -/
  | mark
  /-- at the semaphore -/
  | down
  /-- before it sets the CU to running -/
  | took
  | execute
deriving DecidableEq, Repr

/-- The command is started and its token is not given yet. -/
def CuPc.due : CuPc → Nat
  | .marked => 1
  | _ => 0

def SkPc.given : SkPc → Nat
  | .init => 0
  | _ => 1

/-- The tokens that the process holds. -/
def SkPc.held : SkPc → Nat
  | .took => 1
  | _ => 0

structure System where
  core : XrtCuScu
  /-- The SCU was added to KDS. -/
  added : Bool
  cu : CuPc
  sk : SkPc
  /-- The commands whose start was written. -/
  started : Nat
  /-- The successful returns from `zocl_scu_wait_cmd_sk`: the n-th is for the n-th command. -/
  returned : Nat
  /-- The successful returns before its last call. -/
  reported : Nat

namespace System

def init (cuRegfile : Nat → BitVec 32) : System where
  core := .init cuRegfile
  added := false
  cu := .idle
  sk := .init
  started := 0
  returned := 0
  reported := 0

inductive Event
  | waitReady
  | submitConfig (xcmd : Command)
  | markStart
  | upSem
  | check (force : Bool)
  | ready
  | report
  | markDone
  | down
  /-- A signal ends the wait at the semaphore. -/
  | interrupt
  | returns
  | execute (rcode : BitVec 32)
deriving DecidableEq, Repr

def Enabled (s : System) : Event → Prop
  | .waitReady => s.added = false ∧ 0 < s.core.scSem
  | .submitConfig _ => s.added = true ∧ s.cu = .idle
  | .markStart => s.cu = .configured
  | .upSem => s.cu = .marked
  | .check _ => s.cu = .idle ∨ s.cu = .running
  | .ready => s.sk = .init
  | .report => s.sk = .report
  | .markDone => s.sk = .mark
  | .down => s.sk = .down ∧ 0 < s.core.scSem
  | .interrupt => s.sk = .down
  | .returns => s.sk = .took
  | .execute _ => s.sk = .execute

instance (s : System) : (event : Event) → Decidable (s.Enabled event)
  | .waitReady | .submitConfig _ | .down => inferInstanceAs (Decidable (_ ∧ _))
  | .check _ => inferInstanceAs (Decidable (_ ∨ _))
  | .markStart | .upSem => inferInstanceAs (Decidable (s.cu = _))
  | .ready | .report | .markDone | .interrupt | .returns | .execute _ =>
    inferInstanceAs (Decidable (s.sk = _))

def next (s : System) : Event → System
  | .waitReady => { s with core := s.core.downSem, added := true }
  | .submitConfig xcmd => { s with core := s.core.scuSubmitConfig xcmd, cu := .configured }
  | .markStart => { s with core := s.core.markStart, started := s.started + 1, cu := .marked }
  | .upSem => { s with core := s.core.upSem, cu := .running }
  | .check force =>
    let core := (s.core.scuCheck {} force).1
    { s with core := core, cu := if core.submitted = [] then .idle else .running }
  | .ready => { s with core := s.core.upSem, sk := .report }
  | .report =>
    { s with
      reported := s.returned
      sk := if s.core.cuRegfile 0 = CU_AP_START then .mark else .down }
  | .markDone => { s with core := s.core.writeCtrl CU_AP_DONE, sk := .down }
  | .down => { s with core := s.core.downSem, sk := .took }
  | .interrupt => { s with sk := .report }
  | .returns =>
    { s with core := s.core.writeCtrl CU_AP_START, returned := s.returned + 1, sk := .execute }
  | .execute rcode => { s with core := s.core.writeRcode rcode, sk := .report }

def step : System → Event → Option System := guarded Enabled next

/-! ### What a check may complete -/

/-- A check made now completes a command. -/
def Completes (s : System) (force : Bool) : Prop :=
  (s.core.scuCheck {} force).1.completed ≠ s.core.completed

/-- A check completes the command only after the process has returned for it and reported again. -/
def CompletesAfterRun (s : System) : Prop :=
  ∀ force, s.Enabled (.check force) → s.Completes force →
    s.returned = s.started ∧ s.reported = s.returned

/-- While a command runs the process marks the CU done only if it has returned for that command, and
it does not mark it between the two halves of the start. -/
def MarksAfterRun (s : System) : Event → Prop
  | .markDone => s.sk = .mark → s.cu = .running → s.returned = s.started
  | .upSem => s.cu = .marked → s.core.cuRegfile 0 ≠ CU_AP_DONE
  | _ => True

structure Inv (s : System) : Prop where
  alive : s.core.skCrashed = false
  submitted : s.core.submitted = [] ↔ s.cu = .idle
  notAdded : s.added = false → s.cu = .idle ∧ s.started = 0
  /-- Every token is for a command that was started, or the one that tells that the kernel is
  ready. -/
  tokens : s.core.scSem + s.sk.held + s.returned + s.added.toNat + s.cu.due
    = s.started + s.sk.given
  reported_le : s.reported ≤ s.returned
  asked : s.sk = .mark ∨ s.sk = .down → s.reported = s.returned
  done : s.cu = .running → s.core.cuRegfile 0 = CU_AP_DONE → s.reported = s.started

theorem inv_init (cuRegfile : Nat → BitVec 32) : (init cuRegfile).Inv := by
  constructor <;> simp [init, XrtCuScu.init, SkPc.held, SkPc.given, CuPc.due]

namespace Inv

variable {s : System}

theorem returned_le (inv : s.Inv) (busy : s.cu ≠ .idle) :
    s.returned + s.cu.due ≤ s.started := by
  have added : s.added = true := by
    by_contra notAdded
    exact busy (inv.notAdded (Bool.eq_false_iff.mpr notAdded)).1
  have given : s.sk.given ≤ 1 := by
    cases s.sk <;> simp [SkPc.given]
  have tokens := inv.tokens
  rw [added, Bool.toNat_true] at tokens
  omega

theorem waitReady (inv : s.Inv) (enabled : s.Enabled .waitReady) : (s.next .waitReady).Inv := by
  obtain ⟨alive, submitted, notAdded, tokens, reported_le, asked, done⟩ := inv
  obtain ⟨fresh, sem⟩ := enabled
  refine ⟨alive, submitted, fun absurd => Bool.noConfusion absurd, ?_, reported_le, asked, done⟩
  -- the token of the ready report is used up
  rw [fresh, Bool.toNat_false] at tokens
  simp only [System.next, XrtCuScu.downSem, Bool.toNat_true]
  omega

theorem submitConfig {xcmd : Command} (inv : s.Inv) (enabled : s.Enabled (.submitConfig xcmd)) :
    (s.next (.submitConfig xcmd)).Inv := by
  obtain ⟨alive, submitted, notAdded, tokens, reported_le, asked, done⟩ := inv
  obtain ⟨added, idle⟩ := enabled
  refine ⟨alive, ?_, ?_, ?_, reported_le, asked, ?_⟩
  · simp [System.next, XrtCuScu.scuSubmitConfig]
  · simp [System.next, added]
  · rw [idle] at tokens
    exact tokens
  · simp [System.next]

theorem markStart (inv : s.Inv) (enabled : s.Enabled .markStart) : (s.next .markStart).Inv := by
  obtain ⟨alive, submitted, notAdded, tokens, reported_le, asked, done⟩ := inv
  have busy : s.cu ≠ .idle := enabled.trans_ne nofun
  refine ⟨alive, ?_, fun fresh => absurd (notAdded fresh).1 busy, ?_, reported_le, asked, ?_⟩
  · exact iff_of_false (mt submitted.mp busy) (by simp [System.next])
  · -- one command more is started, and its token is due
    rw [enabled] at tokens
    simp only [System.next, XrtCuScu.markStart, XrtCuScu.writeCtrl, CuPc.due] at tokens ⊢
    omega
  · simp [System.next]

theorem upSem (inv : s.Inv) (enabled : s.Enabled .upSem) (met : s.MarksAfterRun .upSem) :
    (s.next .upSem).Inv := by
  obtain ⟨alive, submitted, notAdded, tokens, reported_le, asked, done⟩ := inv
  have busy : s.cu ≠ .idle := enabled.trans_ne nofun
  refine ⟨alive, ?_, fun fresh => absurd (notAdded fresh).1 busy, ?_, reported_le, asked, ?_⟩
  · exact iff_of_false (mt submitted.mp busy) (by simp [System.next])
  · rw [enabled] at tokens
    simp only [System.next, XrtCuScu.upSem, CuPc.due] at tokens ⊢
    omega
  · -- the command starts to run with `CU_AP_START` in the control word
    exact fun _ marked => absurd marked (met enabled)

theorem check {force : Bool} (inv : s.Inv) (enabled : s.Enabled (.check force)) :
    (s.next (.check force)).Inv := by
  obtain ⟨alive, submitted, notAdded, tokens, reported_le, asked, done⟩ := inv
  obtain ⟨reg, sem⟩ := s.core.scuCheck_shared force
  have idle : s.cu = .idle → (s.core.scuCheck {} force).1.submitted = [] := fun idle =>
    XrtCuScu.scuCheck_submitted_nil alive (submitted.mpr idle)
  refine ⟨XrtCuScu.scuCheck_skCrashed alive, ?_, fun fresh => ?_, ?_, reported_le, asked, ?_⟩
  · simp only [System.next]
    split_ifs with none
    · exact iff_of_true none rfl
    · exact iff_of_false none nofun
  · exact ⟨if_pos (idle (notAdded fresh).1), (notAdded fresh).2⟩
  · have due : (s.next (.check force)).cu.due = s.cu.due := by
      simp only [System.next]
      rcases enabled with pc | pc <;> rw [pc] <;> split_ifs <;> rfl
    rw [due]
    simpa only [System.next, sem] using tokens
  · -- a command still runs afterwards only if one ran before
    intro running marked
    simp only [System.next] at running marked
    split_ifs at running with none
    rw [reg] at marked
    exact done (enabled.resolve_left fun pc => none (idle pc)) marked

section

variable (inv : s.Inv)
include inv

theorem ready (enabled : s.Enabled .ready) : (s.next .ready).Inv := by
  obtain ⟨alive, submitted, notAdded, tokens, reported_le, asked, done⟩ := inv
  refine ⟨alive, submitted, notAdded, ?_, reported_le, ?_, done⟩
  · rw [enabled] at tokens
    simp only [System.next, XrtCuScu.upSem, SkPc.held, SkPc.given] at tokens ⊢
    omega
  · simp [System.next]

theorem report (enabled : s.Enabled .report) : (s.next .report).Inv := by
  obtain ⟨alive, submitted, notAdded, tokens, -, -, done⟩ := id inv
  refine ⟨alive, submitted, notAdded, ?_, le_refl _, fun _ => rfl, fun running marked => ?_⟩
  · rw [enabled] at tokens
    simp only [System.next]
    split_ifs <;> exact tokens
  · -- a word that says done was written after the return for the running command
    have returned := inv.returned_le (running.trans_ne nofun)
    have reported := inv.reported_le
    have last := done running marked
    show s.returned = s.started
    omega

theorem markDone (enabled : s.Enabled .markDone) (met : s.MarksAfterRun .markDone) :
    (s.next .markDone).Inv := by
  obtain ⟨alive, submitted, notAdded, tokens, reported_le, asked, done⟩ := inv
  have last := asked (Or.inl enabled)
  refine ⟨alive, submitted, notAdded, ?_, reported_le, fun _ => last, ?_⟩
  · rw [enabled] at tokens
    exact tokens
  · exact fun running _ => last.trans (met enabled running)

theorem down (enabled : s.Enabled .down) : (s.next .down).Inv := by
  obtain ⟨alive, submitted, notAdded, tokens, reported_le, asked, done⟩ := inv
  obtain ⟨waits, sem⟩ := enabled
  refine ⟨alive, submitted, notAdded, ?_, reported_le, ?_, done⟩
  · -- the token moves from the semaphore to the process
    rw [waits] at tokens
    simp only [System.next, XrtCuScu.downSem, SkPc.held, SkPc.given] at tokens ⊢
    omega
  · simp [System.next]

theorem interrupt (enabled : s.Enabled .interrupt) : (s.next .interrupt).Inv := by
  obtain ⟨alive, submitted, notAdded, tokens, reported_le, asked, done⟩ := inv
  refine ⟨alive, submitted, notAdded, ?_, reported_le, ?_, done⟩
  · rw [enabled] at tokens
    exact tokens
  · simp [System.next]

theorem returns (enabled : s.Enabled .returns) : (s.next .returns).Inv := by
  obtain ⟨alive, submitted, notAdded, tokens, reported_le, asked, done⟩ := inv
  refine ⟨alive, submitted, notAdded, ?_, ?_, ?_, ?_⟩
  · rw [enabled] at tokens
    simp only [System.next, XrtCuScu.writeCtrl, SkPc.held, SkPc.given] at tokens ⊢
    omega
  · exact reported_le.trans (Nat.le_succ _)
  · simp [System.next]
  · -- the control word says start again
    simp [System.next, XrtCuScu.writeCtrl, CU_AP_START, CU_AP_DONE]

end

theorem execute {rcode : BitVec 32} (inv : s.Inv) (enabled : s.Enabled (.execute rcode)) :
    (s.next (.execute rcode)).Inv := by
  obtain ⟨alive, submitted, notAdded, tokens, reported_le, asked, done⟩ := inv
  refine ⟨alive, submitted, notAdded, ?_, reported_le, ?_, done⟩
  · rw [enabled] at tokens
    exact tokens
  · simp [System.next]

theorem next (event : Event) (inv : s.Inv) (enabled : s.Enabled event)
    (met : s.MarksAfterRun event) : (s.next event).Inv := by
  cases event with
  | waitReady => exact inv.waitReady enabled
  | submitConfig xcmd => exact inv.submitConfig enabled
  | markStart => exact inv.markStart enabled
  | upSem => exact inv.upSem enabled met
  | check force => exact inv.check enabled
  | ready => exact inv.ready enabled
  | report => exact inv.report enabled
  | markDone => exact inv.markDone enabled met
  | down => exact inv.down enabled
  | interrupt => exact inv.interrupt enabled
  | returns => exact inv.returns enabled
  | execute rcode => exact inv.execute enabled

theorem completesAfterRun (inv : s.Inv) : s.CompletesAfterRun := by
  intro force enabled completes
  obtain ⟨some, finds⟩ := (XrtCuScu.scuCheck_completes_iff inv.alive).mp completes
  have busy : s.cu ≠ .idle := mt inv.submitted.mpr some
  -- the last report came after as many returns as commands were started
  have last := inv.done (enabled.resolve_left busy) finds.2
  have returned := inv.returned_le busy
  have reported := inv.reported_le
  omega

theorem returned_of_completesAfterRun (after : s.CompletesAfterRun)
    (alive : s.core.skCrashed = false) (some : s.core.submitted ≠ []) (running : s.cu = .running)
    (marked : s.core.cuRegfile 0 = CU_AP_DONE) : s.returned = s.started :=
  (after true (Or.inr running)
    ((XrtCuScu.scuCheck_completes_iff alive).mpr ⟨some, Or.inl rfl, marked⟩)).1

theorem marks_early (event : Event) (inv : s.Inv) (early : ¬ s.MarksAfterRun event) :
    s.Enabled event ∧ ¬ (s.next event).CompletesAfterRun := by
  have some (busy : s.cu ≠ .idle) : s.core.submitted ≠ [] := mt inv.submitted.mp busy
  cases event with
  | markDone =>
    simp only [MarksAfterRun, Classical.not_imp] at early
    obtain ⟨enabled, running, early⟩ := early
    refine ⟨enabled, fun after => ?_⟩
    have busy : s.cu ≠ .idle := running.trans_ne nofun
    have returned := returned_of_completesAfterRun after inv.alive (some busy) running rfl
    exact early returned
  | upSem =>
    simp only [MarksAfterRun, Classical.not_imp, not_not] at early
    obtain ⟨enabled, marked⟩ := early
    refine ⟨enabled, fun after => ?_⟩
    -- the process cannot have returned for a command whose token it has not been given
    have busy : s.cu ≠ .idle := enabled.trans_ne nofun
    have returned := returned_of_completesAfterRun after inv.alive (some busy) rfl marked
    have bound := inv.returned_le busy
    rw [enabled] at bound
    simp only [System.next, CuPc.due] at returned bound
    omega
  | _ => exact absurd trivial early

end Inv

/-- Whenever a check may be made it completes only a command that has run, exactly when the process
marks only such a command as done. -/
theorem completesAfterRun_iff (cuRegfile : Nat → BitVec 32) (events : List Event) :
    Always step CompletesAfterRun (init cuRegfile) events ↔
      Along step MarksAfterRun (init cuRegfile) events := by
  refine always_iff_along_of_made (P := Inv) ?_ (fun _ inv => inv.completesAfterRun) ?_
    (inv_init _) events
  · intro s event t inv met made
    obtain ⟨enabled, rfl⟩ := guarded_eq_some_iff.mp made
    exact inv.next event enabled met
  · intro s event inv early
    obtain ⟨enabled, wrong⟩ := inv.marks_early event early
    exact ⟨s.next event, guarded_eq_some_iff.mpr ⟨enabled, rfl⟩, wrong⟩

/-- The process reports for the first time after a command was started. -/
def lateReport : List Event :=
  [.ready, .waitReady, .submitConfig { id := 0, data := [] }, .markStart, .upSem, .report,
    .markDone]

/-- The command is completed, and the process has never run. -/
theorem late_report_completes :
    ∃ s, run step (init fun _ => 0) lateReport = some s ∧ s.Enabled (.check false) ∧
      s.returned = 0 ∧ (s.next (.check false)).core.submitted = [] ∧
      (s.next (.check false)).core.completed = [{ id := 0, data := [], status := .completed }] :=
  ⟨_, rfl, Or.inr rfl, rfl, rfl, rfl⟩

end System

end Xrt.Scu
