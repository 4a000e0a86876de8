import Mathlib.Algebra.Group.Nat.Defs
import Mathlib.Logic.Function.Basic
import Xrt.Lib.Run

/-!
# Waiting through a shared device

Threads wait for their commands with `kds_device::wait(cmd, 0)`. One of them at a time calls the wait
of the device, the others sleep until it returns. Each device object counts the calls; the count that
a thread compares with it is one variable of the thread, whatever the device.
-/
namespace Xrt.KdsDevice

abbrev Dev := Nat

abbrev Thread := Nat

abbrev Cmd := Nat

/-- What the driver has done with a command. -/
inductive Status
  | running
  /-- the packet state is set, the event is still to be added -/
  | marked
  | signalled
deriving DecidableEq, Repr

/-- Where a thread is. -/
inductive Pc
  | idle
  /-- before the packet state is read -/
  | check (cmd : Cmd)
  /-- before the first critical section of `exec_wait` -/
  | enter (cmd : Cmd)
  /-- in the wait on `m_work`, notified since or not -/
  | blocked (cmd : Cmd) (woken : Bool)
  /-- in the wait of the device -/
  | polling (cmd : Cmd)
  /-- an event is consumed, before the second critical section -/
  | leaving (cmd : Cmd)
  /-- before `notify_all` -/
  | notify (cmd : Cmd)
deriving DecidableEq, Repr

/-- The counts of calls are `uint64_t` in the source and `m_exec_wait_active` is `uint32_t`; they are
taken not to wrap. -/
structure System where
  pc : Thread → Pc
  /-- `thread_exec_wait_call_count` -/
  threadCount : Thread → Nat
  /-- `m_exec_wait_call_count` -/
  callCount : Dev → Nat
  /-- `m_exec_wait_active` -/
  active : Dev → Nat
  /-- the events that the driver has added and no call has consumed -/
  events : Dev → Nat
  status : Cmd → Status
  /-- the count of the device at the last return of the thread from its `exec_wait` -/
  synced : Thread → Dev → Nat

def System.initial : System where
  pc := fun _ => .idle
  threadCount := fun _ => 0
  callCount := fun _ => 0
  active := fun _ => 0
  events := fun _ => 0
  status := fun _ => .running
  synced := fun _ _ => 0

inductive Event
  /-- the thread calls `wait` -/
  | wait (t : Thread) (cmd : Cmd)
  | check (t : Thread)
  | enter (t : Thread)
  | spurious (t : Thread)
  /-- the thread in the wait on `m_work` looks at the counts -/
  | resume (t : Thread)
  /-- the wait of the device returns -/
  | poll (t : Thread)
  | leave (t : Thread)
  | notifyAll (t : Thread)
  /-- the driver sets the packet state -/
  | mark (cmd : Cmd)
  /-- the driver adds the event -/
  | signal (cmd : Cmd)
deriving DecidableEq, Repr

def System.goto (s : System) (t : Thread) (pc : Pc) : System :=
  { s with pc := Function.update s.pc t pc }

def System.sync (s : System) (t : Thread) (d : Dev) : System :=
  { s with
    threadCount := Function.update s.threadCount t (s.callCount d)
    synced := Function.update s.synced t (Function.update (s.synced t) d (s.callCount d)) }

/-- `notify_all` on the condition variable of a device. -/
def wakeUp (dev : Cmd → Dev) (d : Dev) : Pc → Pc
  | .blocked cmd woken => .blocked cmd (woken || dev cmd = d)
  | pc => pc

def step (dev : Cmd → Dev) (s : System) : Event → Option System
  | .wait t cmd => if s.pc t = .idle then some (s.goto t (.check cmd)) else none
  | .check t =>
    match s.pc t with
    | .check cmd =>
      -- the loop of `wait` ends with the packet state
      if s.status cmd = .running then some (s.goto t (.enter cmd)) else some (s.goto t .idle)
    | _ => none
  | .enter t =>
    match s.pc t with
    | .enter cmd =>
      -- some call has returned since this thread looked last: it may cover the command
      if s.threadCount t ≠ s.callCount (dev cmd) then
        some ((s.sync t (dev cmd)).goto t (.check cmd))
      -- another thread is in the wait of the device
      else if s.active (dev cmd) ≠ 0 then some (s.goto t (.blocked cmd false))
      else some { s.goto t (.polling cmd) with
        active := Function.update s.active (dev cmd) (s.active (dev cmd) + 1) }
    | _ => none
  | .spurious t =>
    match s.pc t with
    | .blocked cmd _ => some (s.goto t (.blocked cmd true))
    | _ => none
  | .resume t =>
    match s.pc t with
    | .blocked cmd true =>
      if s.threadCount t ≠ s.callCount (dev cmd) then
        some ((s.sync t (dev cmd)).goto t (.check cmd))
      else some (s.goto t (.blocked cmd false))
    | _ => none
  | .poll t =>
    match s.pc t with
    | .polling cmd =>
      if s.events (dev cmd) ≠ 0 then
        some { s.goto t (.leaving cmd) with
          events := Function.update s.events (dev cmd) (s.events (dev cmd) - 1) }
      else none
    | _ => none
  | .leave t =>
    match s.pc t with
    | .leaving cmd =>
      -- the call is counted and the device is free again, under one lock
      let counted := { s with
        callCount := Function.update s.callCount (dev cmd) (s.callCount (dev cmd) + 1)
        active := Function.update s.active (dev cmd) (s.active (dev cmd) - 1) }
      some ((counted.sync t (dev cmd)).goto t (.notify cmd))
    | _ => none
  | .notifyAll t =>
    match s.pc t with
    | .notify cmd =>
      some ({ s with pc := fun u => wakeUp dev (dev cmd) (s.pc u) }.goto t (.check cmd))
    | _ => none
  | .mark cmd =>
    if s.status cmd = .running then
      some { s with status := Function.update s.status cmd .marked }
    else none
  | .signal cmd =>
    if s.status cmd = .marked then
      some { s with
        status := Function.update s.status cmd .signalled
        events := Function.update s.events (dev cmd) (s.events (dev cmd) + 1) }
    else none

end Xrt.KdsDevice
