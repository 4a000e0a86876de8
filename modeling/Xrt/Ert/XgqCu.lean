import Mathlib.Data.List.Perm.Basic
import Xrt.Ert.SchedCu
import Xrt.Lib.Run

/-!
# The queue of a CU in the ERT firmware

`xgq_cu.c`: one XGQ for a CU. A call of `xgq_cu_process` takes at most one command from the
submission queue, looks whether the CU has finished one, and starts the command if the CU
takes input. The count of running commands goes up when a command was executed without an
error, and down with every completion entry.
-/
namespace Xrt.Ert

open Lib

/-- `struct xgq_cu` with its history. The commands are numbered as they are consumed. -/
structure XgqCu where
  cu : SchedCu
  cmd : SchedCmd
  cmdRunning : BitVec 32
  /-- How many commands were consumed. -/
  consumed : Nat
  /-- The commands started on the CU and not completed, oldest first. -/
  inFlight : List Nat
  /-- The completion entries, each with the command it completes: the CU finishes its
  commands in order. -/
  entries : List (Option Nat)
  deriving DecidableEq, Repr

/-- What one call of `xgq_cu_process` meets: the slot that `xgq_consume` finds, the memory,
and the status register of the CU. -/
structure Poll where
  slot : Option (BitVec 64)
  mem : Memory
  hw : BitVec 32

def xgqCuInit (cu : SchedCu) : XgqCu where
  cu := cu.cuSetStatus SCHED_AP_IDLE
  cmd := ⟨0, 0⟩
  cmdRunning := 0
  consumed := 0
  inFlight := []
  entries := []

namespace XgqCu

variable (xc : XgqCu)

/-- The peer makes room in the completion queue while `xgq_produce` is tried again. -/
def xgqCuCompleteCmd (completes : Option Nat) : XgqCu :=
  { xc with entries := xc.entries ++ [completes], cmdRunning := xc.cmdRunning - 1 }

def waitsForInput : Bool := xc.cu.cuHasStatus SCHED_AP_WAIT_FOR_INPUT

/-- The number of the command in `cmd`. -/
def current : Nat := xc.consumed - 1

/-- First part of `xgq_cu_process`: get a command, if there is none. -/
def fetch (slot : Option (BitVec 64)) (mem : Memory) : XgqCu :=
  if xc.cmd.cmdIsValid then xc
  else match slot with
    | none => xc
    | some addr =>
      { xc with cmd := (xc.cmd.cmdSetAddr addr).cmdLoadHeader mem, consumed := xc.consumed + 1 }

/-- Whether the status of the CU is read. -/
def polls : Bool := xc.cmdRunning != 0 || (xc.cmd.cmdIsValid && !xc.waitsForInput)

/-- Second part: look whether the CU is done. -/
def check (hw : BitVec 32) : XgqCu :=
  if xc.polls then
    let cu := xc.cu.cuLoadStatus hw
    if cu.cuHasStatus SCHED_AP_DONE then
      { xc with cu := cu.cuDone, inFlight := xc.inFlight.tail }.xgqCuCompleteCmd xc.inFlight.head?
    else { xc with cu }
  else xc

/-- Last part: execute the command and release its slot. `XGQ_CMD_OP_INIT_CUIDX_KV` sets
arguments and starts nothing. -/
def issue (mem : Memory) : Int × XgqCu :=
  if !xc.cmd.cmdIsValid || !xc.waitsForInput then (-EBUSY, xc)
  else
    let (rc, cu) := xc.cu.cuExecute mem xc.cmd
    let starts := xc.cmd.cmdOpCode ≠ XGQ_CMD_OP_INIT_CUIDX_KV
    let xc' := { xc with cu, cmd := xc.cmd.cmdClearHeader }
    if rc = 0 then
      (rc, { xc' with
        cmdRunning := xc.cmdRunning + 1
        inFlight := if starts then xc.inFlight ++ [xc.current] else xc.inFlight })
    else (rc, xc'.xgqCuCompleteCmd (some xc.current))

def xgqCuProcess (poll : Poll) : Int × XgqCu :=
  ((xc.fetch poll.slot poll.mem).check poll.hw).issue poll.mem

/-! ### The accounting -/

/-- The command that waits for the CU. -/
def pending : List Nat := if xc.cmd.cmdIsValid then [xc.current] else []

/-- `xc_cmd_running` counts the commands in flight, and each consumed command has its one
completion entry, is in flight, or waits. -/
structure Accounted : Prop where
  running : xc.cmdRunning.toNat = xc.inFlight.length
  once : (xc.entries ++ (xc.inFlight ++ xc.pending).map some).Perm
    ((List.range xc.consumed).map some)

def step (poll : Poll) : Option XgqCu := some (xc.xgqCuProcess poll).2

/-- The command starts the CU: its arguments are a whole number of words, or of pairs. -/
def Starts (cmd : SchedCmd) : Prop :=
  cmd.cmdOpCode = Cu.XGQ_CMD_OP_START_CUIDX ∧ cmd.cmdPayloadSize &&& 3 = 0 ∨
    cmd.cmdOpCode = Cu.XGQ_CMD_OP_START_CUIDX_KV ∧ cmd.cmdPayloadSize &&& 7 = 0

/-- The state in which a call decides whether to execute a command. -/
def checked (poll : Poll) : XgqCu := (xc.fetch poll.slot poll.mem).check poll.hw

/-- The condition on one call. -/
structure Orderly (poll : Poll) : Prop where
  /-- A command that is consumed has the state bit of its header set. -/
  new : (xc.fetch poll.slot poll.mem).consumed ≠ xc.consumed →
    (xc.fetch poll.slot poll.mem).cmd.cmdIsValid = true
  /-- The CU is not found done with nothing in flight. -/
  done : xc.inFlight = [] → (xc.fetch poll.slot poll.mem).polls = true →
    (xc.cu.cuLoadStatus poll.hw).cuHasStatus SCHED_AP_DONE = false
  /-- A command that is executed starts the CU, and the count has room for it. -/
  starts : (xc.checked poll).cmd.cmdIsValid = true → (xc.checked poll).waitsForInput = true →
    Starts (xc.checked poll).cmd ∧ (xc.checked poll).inFlight.length + 1 < 2 ^ 32

/-! ### The parts of a call -/

section Parts

theorem fetch_cases (slot : Option (BitVec 64)) (mem : Memory) :
    xc.fetch slot mem = xc ∨
    ∃ cmd, xc.cmd.cmdIsValid = false ∧
      xc.fetch slot mem = { xc with cmd, consumed := xc.consumed + 1 } := by
  unfold fetch
  split
  · exact Or.inl rfl
  next invalid =>
    cases slot with
    | none => exact Or.inl rfl
    | some addr => exact Or.inr ⟨_, by simpa using invalid, rfl⟩

@[simp] theorem fetch_inFlight (slot : Option (BitVec 64)) (mem : Memory) :
    (xc.fetch slot mem).inFlight = xc.inFlight := by
  obtain same | ⟨cmd, -, fetched⟩ := xc.fetch_cases slot mem
  · rw [same]
  · rw [fetched]

@[simp] theorem fetch_cu (slot : Option (BitVec 64)) (mem : Memory) :
    (xc.fetch slot mem).cu = xc.cu := by
  obtain same | ⟨cmd, -, fetched⟩ := xc.fetch_cases slot mem
  · rw [same]
  · rw [fetched]

def findsDone (xc : XgqCu) (hw : BitVec 32) : Bool :=
  xc.polls && (xc.cu.cuLoadStatus hw).cuHasStatus SCHED_AP_DONE

theorem check_cases (hw : BitVec 32) :
    (xc.findsDone hw = false ∧ ∃ cu, xc.check hw = { xc with cu }) ∨
    xc.findsDone hw = true ∧ ∃ cu, xc.check hw = { xc with
      cu
      inFlight := xc.inFlight.tail
      entries := xc.entries ++ [xc.inFlight.head?]
      cmdRunning := xc.cmdRunning - 1 } := by
  unfold check findsDone
  cases polls : xc.polls with
  | false => exact Or.inl ⟨rfl, _, rfl⟩
  | true =>
    cases done : (xc.cu.cuLoadStatus hw).cuHasStatus SCHED_AP_DONE with
    | false =>
      simp [done]
    | true =>
      simp [done, xgqCuCompleteCmd]

variable {xc}

section

variable (accounted : xc.Accounted)
include accounted

theorem Accounted.running_eq_zero : xc.cmdRunning = 0 ↔ xc.inFlight = [] := by
  rw [← List.length_eq_zero_iff, ← accounted.running, ← BitVec.toNat_inj]
  rfl

theorem Accounted.total :
    xc.entries.length + (xc.inFlight.length + xc.pending.length) = xc.consumed := by
  simpa using accounted.once.length_eq

theorem Accounted.entries_some : none ∉ xc.entries := by
  intro member
  have consumed := accounted.once.subset (List.mem_append_left _ member)
  simp at consumed

theorem Accounted.fetch {slot : Option (BitVec 64)} {mem : Memory}
    (new : (xc.fetch slot mem).consumed ≠ xc.consumed →
      (xc.fetch slot mem).cmd.cmdIsValid = true) : (xc.fetch slot mem).Accounted := by
  obtain same | ⟨cmd, invalid, fetched⟩ := xc.fetch_cases slot mem
  · rw [same]
    exact accounted
  · rw [fetched] at new ⊢
    have valid : cmd.cmdIsValid = true := new (Nat.succ_ne_self _)
    have once := accounted.once
    rw [pending, invalid] at once
    refine ⟨accounted.running, ?_⟩
    simp only [pending, valid, current, if_true, List.range_succ, List.map_append, ← List.append_assoc,
      Nat.add_sub_cancel]
    simpa using once.append_right _

theorem Accounted.check (hw : BitVec 32)
    (running : xc.inFlight = [] → xc.findsDone hw = false) : (xc.check hw).Accounted := by
  obtain ⟨-, cu, checked⟩ | ⟨done, cu, checked⟩ := xc.check_cases hw
  · rw [checked]
    exact ⟨accounted.running, accounted.once⟩
  · rw [checked]
    cases inFlight : xc.inFlight with
    | nil =>
      rw [running inFlight] at done
      cases done
    | cons oldest others =>
      have count := accounted.running
      have once := accounted.once
      rw [inFlight] at count once
      constructor
      · simp only [List.length_cons, List.tail_cons] at count ⊢
        bv_omega
      · simpa [pending, current] using once

end

theorem cuExecute_starts_iff (cu : SchedCu) (mem : Memory) (cmd : SchedCmd) :
    (cu.cuExecute mem cmd).1 = 0 ∧ cmd.cmdOpCode ≠ XGQ_CMD_OP_INIT_CUIDX_KV ↔ Starts cmd := by
  have distinct : Cu.XGQ_CMD_OP_START_CUIDX ≠ Cu.XGQ_CMD_OP_START_CUIDX_KV ∧
      Cu.XGQ_CMD_OP_START_CUIDX ≠ XGQ_CMD_OP_INIT_CUIDX_KV ∧
      Cu.XGQ_CMD_OP_START_CUIDX_KV ≠ XGQ_CMD_OP_INIT_CUIDX_KV := by decide
  unfold SchedCu.cuExecute Starts
  by_cases start : cmd.cmdOpCode = Cu.XGQ_CMD_OP_START_CUIDX
  · rw [if_pos start, cu.cuStart_eq_zero_iff]
    simp [start, distinct]
  rw [if_neg start]
  by_cases startKv : cmd.cmdOpCode = Cu.XGQ_CMD_OP_START_CUIDX_KV
  · rw [if_pos startKv, cu.cuStartKv_eq_zero_iff]
    simp [startKv, distinct, Ne.symm distinct.1]
  by_cases init : cmd.cmdOpCode = XGQ_CMD_OP_INIT_CUIDX_KV
  · simp [init, Ne.symm distinct.2.1, Ne.symm distinct.2.2]
  · rw [if_neg init]
    simp [start, startKv, ENOTTY]

theorem issue_idle (mem : Memory)
    (idle : ¬ (xc.cmd.cmdIsValid = true ∧ xc.waitsForInput = true)) : (xc.issue mem).2 = xc := by
  have stops : (!xc.cmd.cmdIsValid || !xc.waitsForInput) = true := by
    cases valid : xc.cmd.cmdIsValid with
    | false => rfl
    | true => simpa [valid] using idle
  rw [issue, if_pos stops]

/-- A command that is executed goes into flight, or counts as running although it started
nothing, or fails and is completed. -/
theorem issue_cases (mem : Memory) (valid : xc.cmd.cmdIsValid = true)
    (waits : xc.waitsForInput = true) :
    ∃ cu, let xc' := { xc with cu, cmd := xc.cmd.cmdClearHeader }
      Starts xc.cmd ∧ (xc.issue mem).2 = { xc' with
          cmdRunning := xc.cmdRunning + 1, inFlight := xc.inFlight ++ [xc.current] } ∨
        ¬ Starts xc.cmd ∧ (xc.issue mem).2 = { xc' with cmdRunning := xc.cmdRunning + 1 } ∨
        ¬ Starts xc.cmd ∧ (xc.issue mem).2 = { xc' with
          cmdRunning := xc.cmdRunning - 1, entries := xc.entries ++ [some xc.current] } := by
  have starts_iff := cuExecute_starts_iff xc.cu mem xc.cmd
  refine ⟨(xc.cu.cuExecute mem xc.cmd).2, ?_⟩
  rw [issue, if_neg (by simp [valid, waits])]
  by_cases ok : (xc.cu.cuExecute mem xc.cmd).1 = 0
  · by_cases init : xc.cmd.cmdOpCode = XGQ_CMD_OP_INIT_CUIDX_KV
    · refine Or.inr (Or.inl ⟨fun starts => (starts_iff.mpr starts).2 init, ?_⟩)
      simp [ok, init]
    · refine Or.inl ⟨starts_iff.mp ⟨ok, init⟩, ?_⟩
      simp [ok, init]
  · refine Or.inr (Or.inr ⟨fun starts => ok (starts_iff.mpr starts).1, ?_⟩)
    simp [ok, xgqCuCompleteCmd]

theorem Accounted.issue_iff (accounted : xc.Accounted) (mem : Memory) :
    (xc.issue mem).2.Accounted ↔
      (xc.cmd.cmdIsValid = true → xc.waitsForInput = true →
        Starts xc.cmd ∧ xc.inFlight.length + 1 < 2 ^ 32) := by
  by_cases executes : xc.cmd.cmdIsValid = true ∧ xc.waitsForInput = true
  · have count := accounted.running
    have once := accounted.once
    have cleared : xc.cmd.cmdClearHeader.cmdIsValid = false := by
      simp [SchedCmd.cmdClearHeader, SchedCmd.cmdIsValid]
    rw [pending, executes.1] at once
    simp only [executes.1, executes.2, true_imp_iff]
    obtain ⟨cu, ⟨starts, issued⟩ | ⟨other, issued⟩ | ⟨other, issued⟩⟩ :=
      issue_cases mem executes.1 executes.2
    · -- the pending command goes into flight; the count can only fail by wrapping
      rw [issued]
      constructor
      · intro after
        have grown := after.running
        refine ⟨starts, ?_⟩
        simp only [List.length_append, List.length_singleton] at grown
        bv_omega
      · intro room
        refine ⟨?_, ?_⟩
        · simp only [List.length_append, List.length_singleton]
          bv_omega
        · simpa [pending, cleared] using once
    · -- counted as running, with nothing in flight
      rw [issued]
      refine iff_of_false (fun after => ?_) (fun starts => other starts.1)
      have grown := after.running
      bv_omega
    · -- completed without having been counted
      rw [issued]
      refine iff_of_false (fun after => ?_) (fun starts => other starts.1)
      have shrunk := after.running
      bv_omega
  · rw [issue_idle mem executes]
    exact iff_of_true accounted fun valid waits => absurd ⟨valid, waits⟩ executes

/-- An entry that completes no command stays for the rest of the call. -/
theorem issue_entries (mem : Memory) : xc.entries ⊆ (xc.issue mem).2.entries := by
  by_cases executes : xc.cmd.cmdIsValid = true ∧ xc.waitsForInput = true
  · obtain ⟨cu, ⟨-, issued⟩ | ⟨-, issued⟩ | ⟨-, issued⟩⟩ := issue_cases mem executes.1 executes.2
    · rw [issued]
      exact List.Subset.refl _
    · rw [issued]
      exact List.Subset.refl _
    · rw [issued]
      exact List.subset_append_left _ _
  · rw [issue_idle mem executes]
    exact List.Subset.refl _

theorem Accounted.lost (accounted : xc.Accounted) {poll : Poll}
    (new : (xc.fetch poll.slot poll.mem).consumed ≠ xc.consumed)
    (invalid : (xc.fetch poll.slot poll.mem).cmd.cmdIsValid = false) :
    ¬ (xc.xgqCuProcess poll).2.Accounted := by
  obtain same | ⟨cmd, before, fetched⟩ := xc.fetch_cases poll.slot poll.mem
  · exact absurd (congrArg consumed same) new
  · rw [fetched] at invalid
    have total := accounted.total
    rw [xgqCuProcess, fetched]
    -- The rest of the call completes at most one command in flight, and executes nothing.
    obtain ⟨-, cu, checked⟩ | ⟨done, cu, checked⟩ :=
      check_cases { xc with cmd, consumed := xc.consumed + 1 } poll.hw
    · rw [checked, issue_idle poll.mem (by simp [invalid])]
      intro after
      have totalAfter := after.total
      simp only [pending, invalid, Bool.false_eq_true, if_false, List.length_nil] at total totalAfter
      omega
    · have running : xc.inFlight ≠ [] := by
        intro empty
        have stopped := accounted.running_eq_zero.mpr empty
        simp [findsDone, polls, stopped, invalid] at done
      rw [checked, issue_idle poll.mem (by simp [invalid])]
      intro after
      have totalAfter := after.total
      have positive := List.length_pos_iff.mpr running
      simp only [pending, invalid, Bool.false_eq_true, if_false, List.length_nil, List.length_append,
        List.length_singleton, List.length_tail] at total totalAfter
      omega

/-- A completion entry with nothing in flight completes no command. -/
theorem spurious {hw : BitVec 32} (mem : Memory) (empty : xc.inFlight = [])
    (done : xc.findsDone hw = true) : ¬ ((xc.check hw).issue mem).2.Accounted := by
  intro after
  obtain ⟨idle, -⟩ | ⟨-, cu, checked⟩ := xc.check_cases hw
  · rw [idle] at done
    cases done
  · have spare : none ∈ (xc.check hw).entries := by
      rw [checked, empty]
      exact List.mem_concat_self
    exact after.entries_some (issue_entries mem spare)

theorem Accounted.process_iff (accounted : xc.Accounted) (poll : Poll) :
    (xc.xgqCuProcess poll).2.Accounted ↔ xc.Orderly poll := by
  constructor
  · intro after
    have new : (xc.fetch poll.slot poll.mem).consumed ≠ xc.consumed →
        (xc.fetch poll.slot poll.mem).cmd.cmdIsValid = true := by
      intro fetched
      by_contra invalid
      exact accounted.lost fetched (Bool.eq_false_iff.mpr invalid) after
    have fetched := accounted.fetch new
    have done : xc.inFlight = [] → (xc.fetch poll.slot poll.mem).findsDone poll.hw = false := by
      intro empty
      by_contra finds
      exact spurious poll.mem (by rw [fetch_inFlight, empty]) (Bool.not_eq_false _ ▸ finds) after
    have checked := fetched.check poll.hw (by rwa [fetch_inFlight])
    refine ⟨new, ?_, (checked.issue_iff poll.mem).mp after⟩
    intro empty polls
    have unfinished := done empty
    rwa [findsDone, polls, Bool.true_and, fetch_cu] at unfinished
  · intro orderly
    have fetched := accounted.fetch orderly.new
    have checked : (xc.checked poll).Accounted := by
      apply fetched.check
      intro empty
      rw [fetch_inFlight] at empty
      cases polls : (xc.fetch poll.slot poll.mem).polls with
      | false => rw [findsDone, polls, Bool.false_and]
      | true =>
        rw [findsDone, polls, Bool.true_and, fetch_cu]
        exact orderly.done empty polls
    exact (checked.issue_iff poll.mem).mpr orderly.starts

theorem xgqCuInit_accounted (cu : SchedCu) : (xgqCuInit cu).Accounted where
  running := rfl
  once := by simp [xgqCuInit, pending, SchedCmd.cmdIsValid]

end Parts

/-- Along every sequence of calls, in every state that is reached `xc_cmd_running` is the
number of commands in flight and each consumed command has one completion entry, is in
flight or waits, if and only if all calls are orderly. -/
theorem xgqCu_accounted_iff (cu : SchedCu) (polls : List Poll) :
    Along step (fun xc poll => ∀ xc', step xc poll = some xc' → xc'.Accounted) (xgqCuInit cu) polls ↔
      Along step Orderly (xgqCuInit cu) polls := by
  refine along_iff_along ?_ ?_ (xgqCuInit_accounted cu) polls
  · intro xc poll xc' accounted orderly stepped
    cases stepped
    exact (accounted.process_iff poll).mpr orderly
  · intro xc poll accounted
    rw [← accounted.process_iff poll]
    exact ⟨fun all => all _ rfl, fun after xc' stepped => by cases stepped; exact after⟩

def idleCu : SchedCu := ⟨0x1000, 0, []⟩

/-- One command without arguments, found by the first call. -/
def firstCommand (header : BitVec 32) : Poll := ⟨some 0, fun _ => header, 0⟩

/-- A first command with an unknown opcode makes the count wrap; a first
`XGQ_CMD_OP_INIT_CUIDX_KV` counts as running for ever and gets no completion entry. -/
theorem xgqCu_miscounts :
    (((xgqCuInit idleCu).xgqCuProcess (firstCommand 0x8000FFFF)).2.cmdRunning = 0xFFFFFFFF ∧
      ((xgqCuInit idleCu).xgqCuProcess (firstCommand 0x8000FFFF)).2.inFlight = [] ∧
      ¬ Along step (fun xc poll => ∀ xc', step xc poll = some xc' → xc'.Accounted)
        (xgqCuInit idleCu) [firstCommand 0x8000FFFF]) ∧
    ((xgqCuInit idleCu).xgqCuProcess (firstCommand 0x80000106)).2.cmdRunning = 1 ∧
      ((xgqCuInit idleCu).xgqCuProcess (firstCommand 0x80000106)).2.inFlight = [] ∧
      ((xgqCuInit idleCu).xgqCuProcess (firstCommand 0x80000106)).2.entries = [] ∧
      ¬ Along step (fun xc poll => ∀ xc', step xc poll = some xc' → xc'.Accounted)
        (xgqCuInit idleCu) [firstCommand 0x80000106] := by
  refine ⟨⟨by decide, by decide, fun along => ?_⟩, by decide, by decide, by decide, fun along => ?_⟩
  · exact absurd (along.1 _ rfl).running (by decide)
  · exact absurd (along.1 _ rfl).running (by decide)

end XgqCu

end Xrt.Ert
