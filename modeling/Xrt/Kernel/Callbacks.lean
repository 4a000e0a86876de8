import Mathlib.Data.List.Perm.Basic
import Xrt.Execbuf.Ert
import Xrt.Lib.Run

/-!
# Completion callbacks

`kernel_command::add_callback`, `run`, `notify` and `run_callbacks`, interleaved at the sections that
hold the mutex. A thread that adds a callback to a completed command calls it after its section, as
the last one of the list; the thread whose `notify` finds the command not done calls those whose
addresses it copies in a section of its own. The list is a vector: a callback added to a full one
moves all the others, and copied addresses then point to freed memory.

Callbacks are named by their place in the list. Threads that wait to make the same call are not told
apart.
-/
namespace Xrt.Kernel

open Lib
open Execbuf (ErtCmdState)

/-- The thread that has set the command done. -/
inductive Notifier
  | idle
  /-- before the first section of `run_callbacks` -/
  | checking (state : ErtCmdState)
  /-- before the second one -/
  | copying (state : ErtCmdState)
  /-- `copy`: the callbacks whose addresses in the vector it is still to call -/
  | calling (state : ErtCmdState) (allocation : Nat) (copy : List Nat)
deriving DecidableEq, Repr

structure KernelCommand where
  done : Bool
  managed : Bool
  /-- of the packet -/
  state : ErtCmdState
  /-- `run` was called -/
  ran : Bool
  /-- the length of `m_callbacks` -/
  callbacks : Nat
  capacity : Nat
  /-- how often the vector has moved -/
  allocation : Nat
  /-- the threads in `add_callback` that have found the command completed, each with the state -/
  adders : List ErtCmdState
  notifier : Notifier
  /-- the calls so far; `none` is one of an address that is no longer valid -/
  calls : List (Option Nat × ErtCmdState)

namespace KernelCommand

def init : KernelCommand where
  done := true
  managed := false
  state := .new
  ran := false
  callbacks := 0
  capacity := 0
  allocation := 0
  adders := []
  notifier := .idle
  calls := []

/-- `grow` is the capacity that a full vector of some length gets. -/
def emplaceBack (cmd : KernelCommand) (grow : Nat → Nat) : KernelCommand :=
  if cmd.callbacks < cmd.capacity then { cmd with callbacks := cmd.callbacks + 1 }
  else
    { cmd with
      callbacks := cmd.callbacks + 1
      capacity := grow cmd.callbacks
      allocation := cmd.allocation + 1 }

/-- The section of `add_callback`; a call that throws changes nothing. -/
def addCallback (cmd : KernelCommand) (grow : Nat → Nat) : KernelCommand :=
  if cmd.managed = false ∧ cmd.done = false then cmd
  else
    let cmd := cmd.emplaceBack grow
    if cmd.done = true ∧ cmd.state.IsCompleted then
      { cmd with adders := cmd.adders ++ [cmd.state] }
    else cmd

def setDone (cmd : KernelCommand) : KernelCommand :=
  { cmd with
    done := true
    notifier := if cmd.callbacks ≠ 0 then .checking cmd.state else .idle }

/-- The section of `notify`. -/
def notify (cmd : KernelCommand) : KernelCommand :=
  if cmd.state.IsCompleted ∧ cmd.done = false then cmd.setDone else cmd

/-- The next section or call of `run_callbacks`. -/
def runCallbacks (cmd : KernelCommand) : Option KernelCommand :=
  match cmd.notifier with
  | .idle => none
  | .checking state =>
    some { cmd with notifier := if cmd.callbacks = 0 then .idle else .copying state }
  | .copying state =>
    some { cmd with notifier := .calling state cmd.allocation (List.range cmd.callbacks) }
  | .calling _ _ [] => some { cmd with notifier := .idle }
  | .calling state allocation (cb :: copy) =>
    some
      { cmd with
        notifier := .calling state allocation copy
        calls := cmd.calls ++ [(if allocation = cmd.allocation then some cb else none, state)] }

inductive Event
  | addCallback
  /-- One of the adders calls the last callback. -/
  | invoke (adder : Nat)
  | run
  /-- The state of the packet changes. -/
  | packet (state : ErtCmdState)
  | notify
  | runCallbacks
deriving DecidableEq, Repr

def step (grow : Nat → Nat) (cmd : KernelCommand) : Event → Option KernelCommand
  | .addCallback => some (cmd.addCallback grow)
  | .invoke adder =>
    cmd.adders[adder]?.map fun state =>
      { cmd with
        adders := cmd.adders.eraseIdx adder
        calls := cmd.calls ++ [(some (cmd.callbacks - 1), state)] }
  | .run =>
    if cmd.ran = false ∧ cmd.done = true then
      some { cmd with ran := true, managed := cmd.callbacks ≠ 0, done := false }
    else none
  | .packet state =>
    if cmd.ran = true ∧ ¬ cmd.state.IsCompleted then some { cmd with state := state } else none
  | .notify => some cmd.notify
  | .runCallbacks => cmd.runCallbacks

/-! ### Calls that are owed -/

/-- The run is over and no thread is to call a callback. -/
def Quiescent (cmd : KernelCommand) : Prop :=
  cmd.ran = true ∧ cmd.done = true ∧ cmd.adders = [] ∧ cmd.notifier = .idle

/-- The accepted callbacks were called, each once, and nothing else. -/
def ExactlyOnce (cmd : KernelCommand) : Prop :=
  (cmd.calls.map Prod.fst).Perm ((List.range cmd.callbacks).map some)

/-- No thread is to copy the list, and if one has copied it the vector does not move. -/
def NotifierApart (cmd : KernelCommand) : Prop :=
  match cmd.notifier with
  | .idle => True
  | .checking _ | .copying _ => False
  | .calling _ _ copy => cmd.callbacks < cmd.capacity ∨ copy = []

/-- A callback that is added to a completed command: no other thread is to call the last callback or
one that the addition touches. -/
def AddsApart (cmd : KernelCommand) : Event → Prop
  | .addCallback =>
    cmd.ran = true → cmd.done = true → cmd.adders = [] ∧ cmd.NotifierApart
  | _ => True

/-- What the notifier is going to call, if no callback is added. -/
def notifierOwes (cmd : KernelCommand) : List (Option Nat) :=
  match cmd.notifier with
  | .idle => []
  | .checking _ | .copying _ => (List.range cmd.callbacks).map some
  | .calling _ allocation copy =>
    copy.map fun cb => if allocation = cmd.allocation then some cb else none

/-- What is going to be called, if no callback is added. -/
def owed (cmd : KernelCommand) : List (Option Nat) :=
  if cmd.ran = true ∧ cmd.done = true then
    List.replicate cmd.adders.length (some (cmd.callbacks - 1)) ++ cmd.notifierOwes
  else (List.range cmd.callbacks).map some

/-- With the calls that are owed every callback is called once. -/
def Settles (cmd : KernelCommand) : Prop :=
  (cmd.calls.map Prod.fst ++ cmd.owed).Perm ((List.range cmd.callbacks).map some)

theorem Quiescent.settles_iff {cmd : KernelCommand} (quiescent : cmd.Quiescent) :
    cmd.Settles ↔ cmd.ExactlyOnce := by
  obtain ⟨ran, done, adders, notifier⟩ := quiescent
  simp [Settles, ExactlyOnce, owed, notifierOwes, ran, done, adders, notifier]

structure Inv (cmd : KernelCommand) : Prop where
  /-- Until the run is over nothing is called. -/
  waits : ¬ (cmd.ran = true ∧ cmd.done = true) →
    cmd.adders = [] ∧ cmd.notifier = .idle ∧ cmd.calls = []
  done_of_not_ran : cmd.ran = false → cmd.done = true ∧ ¬ cmd.state.IsCompleted
  completed : cmd.ran = true → cmd.done = true → cmd.state.IsCompleted
  allocation : ∀ state allocation copy, cmd.notifier = .calling state allocation copy →
    allocation ≤ cmd.allocation

theorem inv_init : init.Inv := by
  constructor <;> simp [init, ErtCmdState.IsCompleted, ErtCmdState.toNat]

/-! ### Steps -/

section Steps

variable {cmd : KernelCommand} (grow : Nat → Nat)

/-- The vector with one callback more. -/
def extended (cmd : KernelCommand) (capacity : Nat) : KernelCommand :=
  { cmd with
    callbacks := cmd.callbacks + 1
    capacity := capacity
    allocation := cmd.allocation + if cmd.callbacks < cmd.capacity then 0 else 1 }

theorem emplaceBack_eq (cmd : KernelCommand) :
    ∃ capacity, cmd.emplaceBack grow = cmd.extended capacity := by
  unfold emplaceBack extended
  split_ifs
  · exact ⟨cmd.capacity, rfl⟩
  · exact ⟨grow cmd.callbacks, rfl⟩

section

variable (inv : cmd.Inv)
include inv

/-- A callback is refused, or it is accepted before the end of the run, or after it. -/
theorem addCallback_cases : ¬ (cmd.ran = true ∧ cmd.done = true) ∧ cmd.addCallback grow = cmd ∨
    (∃ capacity, ¬ (cmd.ran = true ∧ cmd.done = true) ∧
      cmd.addCallback grow = cmd.extended capacity) ∨
    ∃ capacity, cmd.ran = true ∧ cmd.done = true ∧
      cmd.addCallback grow
        = { cmd.extended capacity with adders := cmd.adders ++ [cmd.state] } := by
  obtain ⟨capacity, emplaced⟩ := emplaceBack_eq grow cmd
  by_cases refused : cmd.managed = false ∧ cmd.done = false
  · refine Or.inl ⟨fun ended => ?_, if_pos refused⟩
    exact Bool.false_ne_true (refused.2.symm.trans ended.2)
  · refine Or.inr ?_
    simp only [addCallback, if_neg refused, emplaced]
    by_cases ended : cmd.ran = true ∧ cmd.done = true
    · refine Or.inr ⟨capacity, ended.1, ended.2, if_pos ⟨ended.2, inv.completed ended.1 ended.2⟩⟩
    · refine Or.inl ⟨capacity, ended, if_neg fun ⟨done, completed⟩ => ?_⟩
      -- before the run the packet is not completed
      cases ran : cmd.ran with
      | false => exact (inv.done_of_not_ran ran).2 completed
      | true => exact ended ⟨ran, done⟩

theorem Inv.extended (capacity : Nat) : (cmd.extended capacity).Inv := by
  obtain ⟨waits, done_of_not_ran, completed, allocation⟩ := inv
  refine ⟨waits, done_of_not_ran, completed, fun state a copy calling => ?_⟩
  exact Nat.le_add_right_of_le (allocation state a copy calling)

theorem Inv.addCallback : (cmd.addCallback grow).Inv := by
  obtain ⟨-, same⟩ | ⟨capacity, -, made⟩ | ⟨capacity, ran, done, made⟩ :=
    addCallback_cases grow inv
  · rw [same]
    exact inv
  · rw [made]
    exact inv.extended capacity
  · obtain ⟨-, done_of_not_ran, completed, allocation⟩ := inv.extended capacity
    rw [made]
    exact ⟨fun waits => absurd ⟨ran, done⟩ waits, done_of_not_ran, completed, allocation⟩

theorem notify_cases : cmd.notify = cmd ∨
    cmd.ran = true ∧ cmd.done = false ∧ cmd.state.IsCompleted ∧ cmd.notify = cmd.setDone := by
  by_cases first : cmd.state.IsCompleted ∧ cmd.done = false
  · cases ran : cmd.ran with
    | false => exact absurd ((inv.done_of_not_ran ran).1.symm.trans first.2) nofun
    | true => exact Or.inr ⟨rfl, first.2, first.1, if_pos first⟩
  · exact Or.inl (if_neg first)

theorem Inv.notify : cmd.notify.Inv := by
  obtain same | ⟨ran, -, completed, made⟩ := notify_cases inv
  · rw [same]
    exact inv
  · rw [made]
    refine ⟨fun waits => absurd ⟨ran, rfl⟩ waits, fun notRan => ?_, fun _ _ => completed, ?_⟩
    · exact absurd (ran.symm.trans notRan) nofun
    · intro state allocation copy calling
      simp only [setDone] at calling
      split_ifs at calling

/-- Once a thread runs the callbacks the run is over. -/
theorem Inv.ended_of_notifier (busy : cmd.notifier ≠ .idle) : cmd.ran = true ∧ cmd.done = true := by
  by_contra waits
  exact busy (inv.waits waits).2.1

theorem Inv.ended_of_adder {adder : Nat} {state : ErtCmdState}
    (pending : cmd.adders[adder]? = some state) : cmd.ran = true ∧ cmd.done = true := by
  by_contra waits
  rw [(inv.waits waits).1] at pending
  cases pending

end

variable {next : KernelCommand}

theorem runCallbacks_cases (made : cmd.runCallbacks = some next) :
    (∃ state, cmd.notifier = .checking state ∧
      next = { cmd with notifier := if cmd.callbacks = 0 then .idle else .copying state }) ∨
    (∃ state, cmd.notifier = .copying state ∧
      next = { cmd with
        notifier := .calling state cmd.allocation (List.range cmd.callbacks) }) ∨
    (∃ state allocation, cmd.notifier = .calling state allocation [] ∧
      next = { cmd with notifier := .idle }) ∨
    ∃ state allocation cb copy, cmd.notifier = .calling state allocation (cb :: copy) ∧
      next = { cmd with
        notifier := .calling state allocation copy
        calls := cmd.calls ++
          [(if allocation = cmd.allocation then some cb else none, state)] } := by
  unfold runCallbacks at made
  split at made <;> cases made
  · exact .inl ⟨_, ‹_›, rfl⟩
  · exact .inr (.inl ⟨_, ‹_›, rfl⟩)
  · exact .inr (.inr (.inl ⟨_, _, ‹_›, rfl⟩))
  · exact .inr (.inr (.inr ⟨_, _, _, _, ‹_›, rfl⟩))

theorem Inv.runCallbacks (inv : cmd.Inv) (made : cmd.runCallbacks = some next) : next.Inv := by
  obtain ⟨-, done_of_not_ran, completed, -⟩ := id inv
  obtain ⟨state, now, rfl⟩ | ⟨state, now, rfl⟩ | ⟨state, a, now, rfl⟩ |
    ⟨state, a, cb, copy, now, rfl⟩ := runCallbacks_cases made
  all_goals
    have ended := inv.ended_of_notifier (now.trans_ne nofun)
    refine ⟨fun waits => absurd ended waits, done_of_not_ran, completed, ?_⟩
    intro state allocation copy calling
  · split_ifs at calling
  · cases calling
    exact Nat.le_refl _
  · cases calling
  · cases calling
    exact inv.allocation _ _ _ now

theorem Inv.step (event : Event) (inv : cmd.Inv)
    (made : cmd.step grow event = some next) : next.Inv := by
  obtain ⟨waits, done_of_not_ran, completed, allocation⟩ := id inv
  cases event with
  | addCallback =>
    cases made
    exact inv.addCallback grow
  | invoke adder =>
    obtain ⟨state, pending, rfl⟩ := Option.map_eq_some_iff.mp made
    have ended := inv.ended_of_adder pending
    exact ⟨fun waits => absurd ended waits, done_of_not_ran, completed, allocation⟩
  | run =>
    simp only [KernelCommand.step] at made
    split_ifs at made with starts
    cases made
    have first : ¬ (cmd.ran = true ∧ cmd.done = true) := fun ended =>
      Bool.false_ne_true (starts.1.symm.trans ended.1)
    exact ⟨fun _ => waits first, nofun, nofun, allocation⟩
  | packet state =>
    simp only [KernelCommand.step] at made
    split_ifs at made with changes
    cases made
    refine ⟨waits, fun notRan => ?_, fun ran done => ?_, allocation⟩
    · exact absurd (changes.1.symm.trans notRan) nofun
    · exact absurd (completed ran done) changes.2
  | notify =>
    cases made
    exact inv.notify
  | runCallbacks => exact inv.runCallbacks made

end Steps

/-! ### What a step does to the calls that are owed -/

theorem perm_range_succ_iff (called owes : List (Option Nat)) (n adders : Nat) :
    (called ++ (List.replicate (adders + 1) (some n) ++ owes)).Perm ((List.range (n + 1)).map some)
      ↔ adders = 0 ∧ (called ++ owes).Perm ((List.range n).map some) := by
  have last : ((List.range (n + 1)).map some).Perm (some n :: (List.range n).map some) := by
    rw [List.range_succ, List.map_append]
    exact List.perm_append_singleton _ _
  rw [last.congr_right]
  constructor
  · intro all
    -- the callback itself occurs once on the right
    have once := all.count_eq (some n)
    rw [List.count_append, List.count_append, List.count_replicate_self, List.count_cons_self,
      List.count_eq_zero_of_not_mem (by simp : some n ∉ (List.range n).map some)] at once
    obtain rfl : adders = 0 := by omega
    exact ⟨rfl, (List.perm_middle.symm.trans all).cons_inv⟩
  · rintro ⟨rfl, rest⟩
    exact List.perm_middle.trans (rest.cons (some n))

section Settling

variable {cmd : KernelCommand}

theorem settles_of_waits (inv : cmd.Inv) (waits : ¬ (cmd.ran = true ∧ cmd.done = true)) :
    cmd.Settles := by
  simp only [Settles, owed, if_neg waits, (inv.waits waits).2.2]
  exact List.Perm.refl _

theorem notifierOwes_extended (capacity : Nat) (apart : cmd.NotifierApart) :
    (cmd.extended capacity).notifierOwes = cmd.notifierOwes := by
  cases notifier : cmd.notifier with
  | idle => simp only [notifierOwes, extended, notifier]
  | checking state => simp [NotifierApart, notifier] at apart
  | copying state => simp [NotifierApart, notifier] at apart
  | calling state allocation copy =>
    simp only [NotifierApart, notifier] at apart
    rcases apart with room | rfl
    · simp only [notifierOwes, extended, notifier, room, if_true, Nat.add_zero]
    · simp only [notifierOwes, extended, notifier, List.map_nil]

/-- A notifier that has not copied the list yet calls the new callback too, and one that has copied
it calls freed addresses once the vector has moved. -/
theorem mem_notifierOwes_extended (inv : cmd.Inv) (capacity : Nat) (near : ¬ cmd.NotifierApart) :
    some cmd.callbacks ∈ (cmd.extended capacity).notifierOwes ∨
      none ∈ (cmd.extended capacity).notifierOwes := by
  cases notifier : cmd.notifier with
  | idle => simp [NotifierApart, notifier] at near
  | checking state => simp [notifierOwes, extended, notifier]
  | copying state => simp [notifierOwes, extended, notifier]
  | calling state allocation copy =>
    simp only [NotifierApart, notifier, not_or] at near
    obtain ⟨full, some⟩ := near
    have old := inv.allocation state allocation copy notifier
    -- the copied addresses are of an allocation before the one that is made now
    have moved : allocation ≠ cmd.allocation + 1 := by omega
    obtain ⟨cb, rest, rfl⟩ := List.exists_cons_of_ne_nil some
    simp [notifierOwes, extended, notifier, full, moved]

theorem settles_added (inv : cmd.Inv) (capacity : Nat) (ran : cmd.ran = true)
    (done : cmd.done = true) :
    { cmd.extended capacity with adders := cmd.adders ++ [cmd.state] }.Settles ↔
      cmd.Settles ∧ cmd.AddsApart .addCallback := by
  have owes : { cmd.extended capacity with adders := cmd.adders ++ [cmd.state] }.Settles ↔
      cmd.adders.length = 0 ∧ (cmd.calls.map Prod.fst ++ (cmd.extended capacity).notifierOwes).Perm
        ((List.range cmd.callbacks).map some) := by
    rw [← perm_range_succ_iff]
    simp [Settles, owed, extended, notifierOwes, ran, done]
  -- settled calls leave room for one adder and no change of what the notifier calls
  rw [owes, List.length_eq_zero_iff]
  by_cases apart : cmd.NotifierApart
  · rw [notifierOwes_extended capacity apart]
    constructor
    · rintro ⟨adders, all⟩
      refine ⟨?_, fun _ _ => ⟨adders, apart⟩⟩
      simpa [Settles, owed, ran, done, adders] using all
    · rintro ⟨all, alone⟩
      obtain ⟨adders, -⟩ := alone ran done
      simpa [Settles, owed, ran, done, adders] using all
  · refine iff_of_false (fun ⟨_, all⟩ => ?_) fun ⟨_, alone⟩ => apart (alone ran done).2
    -- the list that is to be called holds something that is no callback of the old list
    rcases mem_notifierOwes_extended inv capacity apart with again | freed
    · have old := all.mem_iff.mp (List.mem_append_right _ again)
      simp at old
    · have old := all.mem_iff.mp (List.mem_append_right _ freed)
      simp at old

theorem settles_runCallbacks {next : KernelCommand} (inv : cmd.Inv)
    (made : cmd.runCallbacks = some next) : next.Settles ↔ cmd.Settles := by
  obtain ⟨state, now, rfl⟩ | ⟨state, now, rfl⟩ | ⟨state, a, now, rfl⟩ |
    ⟨state, a, cb, copy, now, rfl⟩ := runCallbacks_cases made
  · by_cases none : cmd.callbacks = 0 <;>
      simp [Settles, owed, notifierOwes, now, none]
  · simp [Settles, owed, notifierOwes, now]
  · simp [Settles, owed, notifierOwes, now]
  · obtain ⟨ran, done⟩ := inv.ended_of_notifier (now.trans_ne nofun)
    -- the call moves from those that are owed to those that were made
    apply List.Perm.congr_left
    simp only [owed, notifierOwes, now, ran, done, and_self, if_true, List.map_append,
      List.map_cons, List.map_nil, List.append_assoc, List.singleton_append]
    exact List.Perm.append_left _ List.perm_middle.symm

theorem settles_step {grow : Nat → Nat} {next : KernelCommand} (event : Event) (inv : cmd.Inv)
    (made : cmd.step grow event = some next) :
    next.Settles ↔ cmd.Settles ∧ cmd.AddsApart event := by
  cases event with
  | addCallback =>
    cases made
    obtain ⟨waits, same⟩ | ⟨capacity, waits, added⟩ | ⟨capacity, ran, done, added⟩ :=
      addCallback_cases grow inv
    · rw [same]
      exact (and_iff_left fun ran done => absurd ⟨ran, done⟩ waits).symm
    · rw [added]
      exact iff_of_true (settles_of_waits (inv.extended capacity) waits)
        ⟨settles_of_waits inv waits, fun ran done => absurd ⟨ran, done⟩ waits⟩
    · rw [added]
      exact settles_added inv capacity ran done
  | invoke adder =>
    refine Iff.trans ?_ (and_iff_left trivial).symm
    obtain ⟨state, pending, rfl⟩ := Option.map_eq_some_iff.mp made
    -- one thread less is to call the last callback, and the call is made
    obtain ⟨bound, -⟩ := List.getElem?_eq_some_iff.mp pending
    obtain ⟨ran, done⟩ := inv.ended_of_adder pending
    obtain ⟨others, length⟩ : ∃ others, cmd.adders.length = others + 1 :=
      ⟨_, (Nat.sub_add_cancel (Nat.one_le_of_lt bound)).symm⟩
    simp [Settles, owed, notifierOwes, ran, done, List.length_eraseIdx_of_lt bound, length,
      List.replicate_succ]
  | run =>
    have inv' := inv.step grow .run made
    simp only [step] at made
    split_ifs at made with starts
    cases made
    refine iff_of_true (settles_of_waits inv' nofun) ⟨settles_of_waits inv fun ended => ?_, trivial⟩
    exact Bool.false_ne_true (starts.1.symm.trans ended.1)
  | packet state =>
    simp only [step] at made
    split_ifs at made
    cases made
    exact (and_iff_left trivial).symm
  | notify =>
    refine Iff.trans ?_ (and_iff_left trivial).symm
    cases made
    obtain same | ⟨ran, done, -, made⟩ := notify_cases inv
    · rw [same]
    · -- what is owed for the run is handed to the notifier
      have waits : ¬ (cmd.ran = true ∧ cmd.done = true) := fun ended =>
        Bool.false_ne_true (done.symm.trans ended.2)
      obtain ⟨adders, -, calls⟩ := inv.waits waits
      refine iff_of_true ?_ (settles_of_waits inv waits)
      rw [made]
      by_cases none : cmd.callbacks = 0 <;>
        simp [Settles, owed, notifierOwes, setDone, ran, adders, calls, none]
  | runCallbacks =>
    refine Iff.trans ?_ (and_iff_left trivial).symm
    exact settles_runCallbacks inv made

theorem settles_init : init.Settles := settles_of_waits inv_init nofun

/-- Once all threads are through, the accepted callbacks have been called once each, exactly if every
callback that was added to the completed command was added apart from the other threads. -/
theorem exactlyOnce_iff (grow : Nat → Nat) {events : List Event}
    (ran : Lib.run (step grow) init events = some cmd) (quiescent : cmd.Quiescent) :
    cmd.ExactlyOnce ↔ Along (step grow) AddsApart init events := by
  rw [← quiescent.settles_iff]
  refine (run_good_iff_of_exact (P := Inv) ?_ ?_ inv_init ran).trans (and_iff_right settles_init)
  · exact fun _ event _ inv made => inv.step grow event made
  · exact fun _ event _ inv made => settles_step event inv made

end Settling

/-- A callback is added, and called when the run completes. -/
def addedBefore : List Event :=
  [.addCallback, .run, .packet .completed, .notify] ++ List.replicate 4 .runCallbacks

theorem added_before_once :
    ∃ cmd, Lib.run (step fun n => 2 * n + 1) init addedBefore = some cmd ∧ cmd.Quiescent ∧
      Along (step fun n => 2 * n + 1) AddsApart init addedBefore := by
  have ran : Lib.run (step fun n => 2 * n + 1) init addedBefore
      = some ⟨true, true, .completed, true, 1, 1, 1, [], .idle, [(some 0, .completed)]⟩ := rfl
  exact ⟨_, ran, ⟨rfl, rfl, rfl, rfl⟩,
    (exactlyOnce_iff _ ran ⟨rfl, rfl, rfl, rfl⟩).mp (List.Perm.refl _)⟩

/-- A second callback is added when the command is done and the list is not copied yet. -/
def addedBetween : List Event :=
  [.addCallback, .run, .packet .completed, .notify, .runCallbacks, .addCallback, .invoke 0]
    ++ List.replicate 4 .runCallbacks

theorem added_between_twice :
    ∃ cmd, Lib.run (step fun n => 2 * n + 1) init addedBetween = some cmd ∧ cmd.Quiescent ∧
      cmd.calls.map Prod.fst = [some 1, some 0, some 1] ∧ ¬ cmd.ExactlyOnce := by
  refine ⟨_, rfl, ⟨rfl, rfl, rfl, rfl⟩, rfl, fun once => ?_⟩
  exact absurd once.length_eq (by decide)

end KernelCommand

end Xrt.Kernel
