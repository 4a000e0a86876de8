import Mathlib.Logic.Function.Basic
import Xrt.Lib.Run

/-!
# The command manager

Threads launch commands for managed execution and one monitor thread notifies them when they have
completed. A step is one critical section, one call of the executor or one iteration of a loop, so a
run is an interleaving of the threads with the monitor and the device.
-/
namespace Xrt.HwQueue

/-- A command, one for each launch. -/
abbrev Cmd := Nat

inductive Launch
  | new
  /-- the command is in `submitted_cmds`, the executor has not answered -/
  | pushed
  /-- the executor has taken the command -/
  | submitted
  | returned
  | threw
deriving DecidableEq, Repr

inductive Monitor
  | top
  | execWait
  | drain
  /-- in the loop over `running_cmds`, with `busy_cmds` and the commands still to look at -/
  | check (busy todo : List Cmd)
deriving DecidableEq, Repr

structure Manager where
  submittedCmds : List Cmd
  runningCmds : List Cmd
  monitor : Monitor
  launch : Cmd → Launch
  /-- the packet has reached a completed state -/
  completed : Cmd → Bool
  /-- the calls of `notify_host`, in order -/
  notified : List Cmd

def Manager.initial : Manager where
  submittedCmds := []
  runningCmds := []
  monitor := .top
  launch := fun _ => .new
  completed := fun _ => false
  notified := []

inductive Event
  /-- the first critical section of `launch` -/
  | push (cmd : Cmd)
  | submitTakes (cmd : Cmd)
  /-- `submit` throws, with the critical section of the handler -/
  | submitThrows (cmd : Cmd)
  | launchReturns (cmd : Cmd)
  /-- the device completes the command -/
  | complete (cmd : Cmd)
  /-- the wait for work ends -/
  | wake
  /-- the wait of the executor ends -/
  | execWaitReturns
  | drain
  /-- one iteration of the loop over `running_cmds` -/
  | checkNext
  | swap
deriving DecidableEq, Repr

def Manager.setLaunch (s : Manager) (cmd : Cmd) (launch : Launch) : Manager :=
  { s with launch := Function.update s.launch cmd launch }

/-- The commands for which the monitor wakes up. -/
def Manager.idle (s : Manager) : Bool := s.runningCmds.isEmpty && s.submittedCmds.isEmpty

def step (s : Manager) : Event → Option Manager
  | .push cmd =>
    if s.launch cmd = .new then
      -- the command is in the list before the device has it
      some { s.setLaunch cmd .pushed with submittedCmds := s.submittedCmds ++ [cmd] }
    else none
  | .submitTakes cmd => if s.launch cmd = .pushed then some (s.setLaunch cmd .submitted) else none
  | .submitThrows cmd =>
    if s.launch cmd = .pushed then
      -- pop_back of an empty vector is guarded in the source too
      some { s.setLaunch cmd .threw with submittedCmds := s.submittedCmds.dropLast }
    else none
  | .launchReturns cmd => if s.launch cmd = .submitted then some (s.setLaunch cmd .returned) else none
  | .complete cmd =>
    if s.launch cmd = .submitted ∨ s.launch cmd = .returned then
      some { s with completed := Function.update s.completed cmd true }
    else none
  | .wake => if s.monitor = .top ∧ s.idle = false then some { s with monitor := .execWait } else none
  | .execWaitReturns => if s.monitor = .execWait then some { s with monitor := .drain } else none
  | .drain =>
    if s.monitor = .drain then
      -- one critical section: the new commands are taken over behind the wait
      let runningCmds := s.runningCmds ++ s.submittedCmds
      some { s with submittedCmds := [], runningCmds, monitor := .check [] runningCmds }
    else none
  | .checkNext =>
    match s.monitor with
    | .check busy (cmd :: todo) =>
      if s.completed cmd then
        -- `notify_host` outside of the lock
        some { s with monitor := .check busy todo, notified := s.notified ++ [cmd] }
      else some { s with monitor := .check (busy ++ [cmd]) todo }
    | _ => none
  | .swap =>
    match s.monitor with
    | .check busy [] => some { s with runningCmds := busy, monitor := .top }
    | _ => none

def Event.ofMonitor : Event → Bool
  | .wake | .execWaitReturns | .drain | .checkNext | .swap => true
  | _ => false

def Manager.held (s : Manager) : List Cmd := s.submittedCmds ++ s.runningCmds

end Xrt.HwQueue
