import Mathlib.Tactic
import Xrt.Execbuf.Ert
import Xrt.Lib.Run

/-!
# Starts whose submission fails

`kernel_command::run` clears `m_done` and then submits the command, through the command manager if
it has callbacks. An exception of the submission leaves `run` with the flag cleared: further calls
are refused, and a managed `wait` blocks, until somebody calls `notify` with the state of a packet
that is completed. The packet of a submission that fails gets there only if it was the driver that
refused it.

A run is followed from one accepted call of `run` to the next, at the sections that hold a mutex.
-/
namespace Xrt.Kernel.Start

open Lib
open Execbuf (ErtCmdState)

inductive QueueKind
  | kds
  | qds
deriving DecidableEq, Repr

/-- The thread in `run`. -/
inductive Caller
  | outside
  | submitting
  | threw
deriving DecidableEq, Repr

/-- A command of a command manager. -/
inductive Entry
  | this
  | other (cmd : Nat)
deriving DecidableEq, Repr

structure Command where
  queue : QueueKind
  done : Bool
  managed : Bool
  /-- the length of `m_callbacks` -/
  callbacks : Nat
  /-- of the packet -/
  state : ErtCmdState
  caller : Caller
  /-- the lists of the command manager -/
  submittedCmds : List Entry
  runningCmds : List Entry
deriving DecidableEq, Repr

inductive Event
  /-- a call of `run` up to the submission -/
  | run
  /-- `kds_add_command` refuses the submission and notifies the packet of an error -/
  | refuse
  /-- the submission throws, with the handler of `launch` -/
  | submitThrows
  /-- `launch` of another command, and its handler -/
  | otherPush (cmd : Nat)
  | otherThrows
  /-- the monitor takes the submitted commands over -/
  | drain
  /-- the loop of the monitor over `running_cmds`, with the other commands that have completed -/
  | check (completed : List Nat)
  | getState
  /-- an unmanaged `wait` ends with `notify_host` -/
  | wait
  | addCallback
  | popCallback
deriving DecidableEq, Repr

namespace Command

variable (s : Command)

/-- The section of `notify`. -/
def notify : Command := if s.state.IsCompleted then { s with done := true } else s

/-- The section of `run`, and that of `launch` in front of the submission. -/
def begun : Command :=
  { s with
    done := false
    managed := s.callbacks ≠ 0
    caller := .submitting
    submittedCmds := if s.callbacks ≠ 0 then s.submittedCmds ++ [.this] else s.submittedCmds }

def stays (completed : List Nat) : Entry → Bool
  | .this => ¬ s.state.IsCompleted
  | .other cmd => cmd ∉ completed

def step (s : Command) : Event → Option Command
  | .run =>
    -- "bad command state, can't launch"
    if s.done = false then some s
    else if s.caller = .outside then some s.begun
    else none
  | .refuse => if s.caller = .submitting then some { s with state := .error } else none
  | .submitThrows =>
    if s.caller = .submitting then
      some
        { s with
          caller := .threw
          submittedCmds := if s.managed then s.submittedCmds.dropLast else s.submittedCmds }
    else none
  | .otherPush cmd => some { s with submittedCmds := s.submittedCmds ++ [.other cmd] }
  | .otherThrows => some { s with submittedCmds := s.submittedCmds.dropLast }
  | .drain =>
    some { s with runningCmds := s.runningCmds ++ s.submittedCmds, submittedCmds := [] }
  | .check completed =>
    let left := { s with runningCmds := s.runningCmds.filter (s.stays completed) }
    some (if .this ∈ s.runningCmds then left.notify else left)
  | .getState => some s.notify
  | .wait =>
    -- the loop of `kds_device` goes on for any other state, and `qds_device` throws
    if s.managed = false ∧ s.state.IsCompleted then some s.notify else none
  | .addCallback =>
    if s.managed = false ∧ s.done = false then some s else some { s with callbacks := s.callbacks + 1 }
  | .popCallback => some { s with callbacks := s.callbacks - 1 }

/-- A thread that calls `wait` does not come back. -/
def WaitBlocks : Prop :=
  if s.managed then s.done = false else s.queue = .kds ∧ ¬ s.state.IsCompleted

/-- The command can be started, and nobody waits for it in vain. -/
def Startable : Prop := s.done = true ∧ ¬ s.WaitBlocks

/-- The calls of `notify`. -/
def Notifies (s : Command) : Event → Prop
  | .check _ => .this ∈ s.runningCmds
  | .getState | .wait => True
  | _ => False

/-- `run` is refused. -/
def Refused (s : Command) : Prop := s.done = false

/-- No call of `notify` with the state of a completed packet. -/
def Unnoticed (s : Command) (e : Event) : Prop := ¬ (s.Notifies e ∧ s.state.IsCompleted)

/-! ### Steps -/

variable {s : Command} {t : Command} {e : Event}

/-- Behind the section of `run`: what is done was notified of a completed packet. -/
def Pending (s : Command) : Prop :=
  s.caller ≠ .outside ∧ (s.done = true → s.state.IsCompleted)

theorem notify_done : s.notify.done = true ↔ s.done = true ∨ s.state.IsCompleted := by
  unfold notify
  split <;> simp [*]

theorem notify_state : s.notify.state = s.state := by
  unfold notify
  split <;> rfl

theorem notify_caller : s.notify.caller = s.caller := by
  unfold notify
  split <;> rfl

/-- The flag after a step, the packet and the caller. -/
theorem step_spec (pending : s.Pending) (stepped : s.step e = some t) :
    (t.done = true ↔ s.done = true ∨ ¬ s.Unnoticed e) ∧ (t.state = s.state ∨ t.state = .error)
      ∧ t.caller ≠ .outside := by
  have inside := pending.1
  unfold Unnoticed
  rw [not_not]
  cases e with
  | run =>
    simp only [step, if_neg inside, Option.ite_none_right_eq_some] at stepped
    obtain ⟨-, same⟩ := stepped
    cases same
    exact ⟨by simp [Notifies], .inl rfl, inside⟩
  | refuse =>
    simp only [step, Option.ite_none_right_eq_some] at stepped
    obtain ⟨-, same⟩ := stepped
    cases same
    exact ⟨by simp [Notifies], .inr rfl, inside⟩
  | submitThrows =>
    simp only [step, Option.ite_none_right_eq_some] at stepped
    obtain ⟨-, same⟩ := stepped
    cases same
    exact ⟨by simp [Notifies], .inl rfl, by simp⟩
  | otherPush cmd | otherThrows | drain | popCallback =>
    cases stepped
    exact ⟨by simp [Notifies], .inl rfl, inside⟩
  | check completed =>
    simp only [step] at stepped
    split at stepped
    next member =>
      cases stepped
      exact ⟨by simp [notify_done, Notifies, member], .inl notify_state, by rwa [notify_caller]⟩
    next absent =>
      cases stepped
      exact ⟨by simp [Notifies, absent], .inl rfl, inside⟩
  | getState =>
    cases stepped
    exact ⟨by simp [notify_done, Notifies], .inl notify_state, by rwa [notify_caller]⟩
  | wait =>
    simp only [step, Option.ite_none_right_eq_some] at stepped
    obtain ⟨-, same⟩ := stepped
    cases same
    exact ⟨by simp [notify_done, Notifies], .inl notify_state, by rwa [notify_caller]⟩
  | addCallback =>
    simp only [step] at stepped
    split at stepped <;>
      cases stepped <;>
      exact ⟨by simp [Notifies], .inl rfl, inside⟩

theorem Pending.step (pending : s.Pending) (stepped : s.step e = some t) : t.Pending := by
  obtain ⟨done, state, caller⟩ := step_spec pending stepped
  refine ⟨caller, fun set => ?_⟩
  rcases state with same | error
  · rw [same]
    rcases done.mp set with before | noticed
    · exact pending.2 before
    · exact (not_not.mp noticed).2
  · rw [error]
    decide

theorem Pending.startable_iff (pending : s.Pending) : s.Startable ↔ s.done = true := by
  refine and_iff_left_of_imp fun done blocks => ?_
  unfold WaitBlocks at blocks
  split at blocks
  · simp [done] at blocks
  · exact blocks.2 (pending.2 done)

end Command

/-- A command that is done, in a given state and with or without a callback. -/
def idle (state : ErtCmdState) (callbacks : Nat) : Command where
  queue := .kds
  done := true
  managed := false
  callbacks := callbacks
  state := state
  caller := .outside
  submittedCmds := []
  runningCmds := []

end Xrt.Kernel.Start
