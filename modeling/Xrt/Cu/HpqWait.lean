import Xrt.Cu.Queues
import Xrt.Lib.Lists

/-!
# Waiting for a high priority command

`xrt_cu_hpq_submit` against `process_hpq`. A caller adds its command to `hpq` under `hpq_lock`,
raises `sem` and waits on `xcu->comp`, the one completion that all callers share. The thread of the
CU looks at `num_hpq` without the lock, and if it is not zero takes the lock, processes and removes
every command there is, drops the lock and calls `complete` once.

A step is one critical section or one operation on the semaphore or the completion. The completion
counts: `complete` adds one, and a waiter that finds it above zero takes one and returns, whoever it
was meant for. The number of callers has no bound, so `num_hpq` is a natural number here.

Each pass pays for one command only, and the completion does not know its caller. The callers are safe
as long as they come one at a time.
-/
namespace Xrt.Cu.Hpq

open Lib

/-- Where a call of `xrt_cu_hpq_submit` is: its command is on the queue, or `sem` is raised too and
it is in `wait_for_completion`. -/
inductive CallPc where
  | added
  | raised
  | returned
  deriving DecidableEq, Repr

/-- Where the thread of the CU is: not in `process_hpq`, past its first look at `num_hpq`, or past
the critical section with `complete` still to be called. -/
inductive ThreadPc where
  | outside
  | entered
  | unlocked
  deriving DecidableEq, Repr

/-- A command with the number of the call that submitted it. -/
abbrev Entry := Nat × KdsCommand

structure State where
  /-- The other queues of the CU; its own `hpq` is the one below. -/
  xcu : XrtCu
  hpq : List Entry
  numHpq : Nat
  /-- `xcu->comp.done`. -/
  done : Nat
  /-- `xcu->sem.count`. -/
  sem : Nat
  thread : ThreadPc
  calls : List CallPc
  /-- The commands taken off the queue so far, with the status they ended with. -/
  removed : List Entry
  /-- How often `complete(&xcu->comp)` was called. -/
  completes : Nat
  deriving DecidableEq, Repr

def start (xcu : XrtCu) : State where
  xcu := xcu
  hpq := []
  numHpq := 0
  done := 0
  sem := 0
  thread := .outside
  calls := []
  removed := []
  completes := 0

def ids (entries : List Entry) : List Nat := entries.map (·.1)

/-! ### The two functions -/

variable (s : State)

/-- A CU without control has no such queue: its callers return at once. -/
def submit (xcmd : KdsCommand) : State :=
  if s.xcu.ctrlNone then { s with calls := s.calls ++ [.returned] }
  else
    { s with
      hpq := s.hpq ++ [(s.calls.length, xcmd)]
      numHpq := s.numHpq + 1
      calls := s.calls ++ [.added] }

def upSem (i : Nat) : State :=
  { s with sem := s.sem + 1, calls := s.calls.set i .raised }

/-- The end of `wait_for_completion`. -/
def wake (i : Nat) : State :=
  { s with done := s.done - 1, calls := s.calls.set i .returned }

/-- `if (!xcu->num_hpq) return;` before the lock is taken. -/
def look : State :=
  if s.numHpq = 0 then s else { s with thread := .entered }

/-- One round of the loop over the queue. -/
def takeOff (reads : Nat → BitVec 32) (s : State) (entry : Entry) (rest : List Entry) : State :=
  let tried := if entry.2.opcode = .abort then tryAbortCmd reads s.xcu entry.2 else (entry.2, s.xcu)
  { s with
    xcu := tried.2
    hpq := rest
    numHpq := s.numHpq - 1
    removed := s.removed ++ [(entry.1, tried.1)] }

/-- `list_for_each_entry_safe` over the queue; `reads i` are the polls of the `i`-th abort. -/
def takeOffAll (reads : Nat → Nat → BitVec 32) : List Entry → Nat → State → State
  | [], _, s => s
  | entry :: rest, i, s => takeOffAll reads rest (i + 1) (takeOff (reads i) s entry rest)

/-- The critical section of `process_hpq`, with its second look at `num_hpq`. -/
def pass (reads : Nat → Nat → BitVec 32) (s : State) : State :=
  let s := if s.numHpq = 0 then s else takeOffAll reads s.hpq 0 s
  { s with thread := .unlocked }

def complete : State :=
  { s with done := s.done + 1, completes := s.completes + 1, thread := .outside }

inductive Event where
  | submit (xcmd : KdsCommand)
  | up (i : Nat)
  | wake (i : Nat)
  | look
  | pass (reads : Nat → Nat → BitVec 32)
  | complete
  /-- The thread of the CU works on its other queues, which may change in any way. -/
  | others (xcu : XrtCu)

def Enabled : Event → Prop
  | .submit _ => True
  | .up i => s.calls[i]? = some .added
  | .wake i => s.calls[i]? = some .raised ∧ 0 < s.done
  | .look => s.thread = .outside
  | .pass _ => s.thread = .entered
  | .complete => s.thread = .unlocked
  | .others xcu => s.thread = .outside ∧ xcu.ctrlNone = s.xcu.ctrlNone

instance (s : State) (e : Event) : Decidable (Enabled s e) := by
  cases e <;> unfold Enabled <;> infer_instance

def next : Event → State
  | .submit xcmd => submit s xcmd
  | .up i => upSem s i
  | .wake i => wake s i
  | .look => look s
  | .pass reads => pass reads s
  | .complete => complete s
  | .others xcu => { s with xcu }

def step : State → Event → Option State := guarded Enabled next

/-! ### What the callers rely on -/

/-- The `i`-th call is under way. -/
def State.Waits (i : Nat) : Prop := ∃ pc, s.calls[i]? = some pc ∧ pc ≠ .returned

/-- The call of `complete` that the pass under way still makes. -/
def State.owed : Nat := if s.thread = .unlocked then 1 else 0

/-- The commands that were processed and whose callers have not returned. -/
def State.unserved : Nat :=
  (ids s.removed).countP fun i => s.calls[i]? ≠ some .returned

structure NoLostWakeup (s : State) : Prop where
  /-- There is a call of `complete` for every command removed. -/
  enough : s.removed.length ≤ s.completes + s.owed
  /-- No caller has returned whose command is still on the queue. -/
  own : ∀ i ∈ ids s.hpq, s.calls[i]? ≠ some .returned
  /-- No caller of a processed command waits in vain: there is a completion for each of them. -/
  woken : s.unserved ≤ s.done + s.owed

/-- A call begins only while no other one is under way. -/
def Alone : Event → Prop
  | .submit _ => ∀ i, ¬ s.Waits i
  | _ => True

/-! ### The loop over the queue -/

theorem takeOffAll_spec (reads : Nat → Nat → BitVec 32) (entries : List Entry) (i : Nat) (s : State)
    (all : s.hpq = entries) :
    (takeOffAll reads entries i s).hpq = [] ∧
      (takeOffAll reads entries i s).numHpq = s.numHpq - entries.length ∧
      ids (takeOffAll reads entries i s).removed = ids s.removed ++ ids entries ∧
      (takeOffAll reads entries i s).calls = s.calls ∧
      (takeOffAll reads entries i s).done = s.done ∧
      (takeOffAll reads entries i s).completes = s.completes := by
  induction entries generalizing i s with
  | nil => simp [takeOffAll, all, ids]
  | cons entry rest ih =>
    obtain ⟨hpq, num, removed, kept⟩ := ih (i + 1) (takeOff (reads i) s entry rest) rfl
    refine ⟨hpq, ?_, ?_, kept⟩
    · rw [takeOffAll, num]
      simp only [takeOff, List.length_cons]
      omega
    · rw [takeOffAll, removed]
      simp [takeOff, ids]

/-! ### The invariant -/

structure Inv (s : State) : Prop where
  counted : s.numHpq = s.hpq.length
  nonempty : s.thread = .entered → s.hpq ≠ []
  distinct : (ids s.removed ++ ids s.hpq).Nodup
  known : ∀ i ∈ ids s.removed ++ ids s.hpq, i < s.calls.length
  /-- A caller that has not returned has its command on the queue or among the removed ones. -/
  tracked : ∀ i, s.Waits i → i ∈ ids s.removed ++ ids s.hpq
  single : ∀ i j, s.Waits i → s.Waits j → i = j
  paid : s.removed.length = s.completes + s.owed
  own : ∀ i ∈ ids s.hpq, s.calls[i]? ≠ some .returned
  woken : s.unserved = s.done + s.owed

theorem Inv.start (xcu : XrtCu) : Inv (start xcu) where
  counted := rfl
  nonempty := by intro entered; cases entered
  distinct := List.nodup_nil
  known := by simp [ids, Hpq.start]
  tracked := by simp [State.Waits, Hpq.start]
  single := by simp [State.Waits, Hpq.start]
  paid := rfl
  own := by simp [ids, Hpq.start]
  woken := rfl

theorem Inv.noLostWakeup {s : State} (inv : Inv s) : NoLostWakeup s where
  enough := inv.paid.le
  own := inv.own
  woken := inv.woken.le

theorem unserved_append {s : State} (inv : Inv s) (pc : CallPc) :
    ((ids s.removed).countP fun i => (s.calls ++ [pc])[i]? ≠ some .returned) = s.unserved := by
  refine List.countP_congr fun i removed => ?_
  rw [List.getElem?_append_left (inv.known i (List.mem_append_left _ removed))]

theorem Inv.submit {s : State} (inv : Inv s) (alone : ∀ i, ¬ s.Waits i) (xcmd : KdsCommand) :
    Inv (submit s xcmd) := by
  -- only the new call can be under way
  have last {pc : CallPc} {i : Nat}
      (waits : ∃ here, (s.calls ++ [pc])[i]? = some here ∧ here ≠ .returned) :
      i = s.calls.length ∧ pc ≠ .returned := by
    obtain ⟨here, found, waits⟩ := waits
    rcases getElem?_concat_cases found with old | ⟨rfl, rfl⟩
    · exact absurd ⟨here, old, waits⟩ (alone i)
    · exact ⟨rfl, waits⟩
  unfold Hpq.submit
  split_ifs with none
  · exact
      { counted := inv.counted
        nonempty := inv.nonempty
        distinct := inv.distinct
        known := fun i known => by
          have := inv.known i known
          simp only [List.length_append, List.length_singleton]
          omega
        tracked := fun i waits => absurd rfl (last waits).2
        single := fun i j waits => absurd rfl (last waits).2
        paid := inv.paid
        own := fun i queued => by
          rw [List.getElem?_append_left (inv.known i (List.mem_append_right _ queued))]
          exact inv.own i queued
        woken := (unserved_append inv .returned).trans inv.woken }
  · have fresh : s.calls.length ∉ ids s.removed ++ ids s.hpq :=
      fun known => lt_irrefl _ (inv.known _ known)
    have queue : ids (s.hpq ++ [(s.calls.length, xcmd)]) = ids s.hpq ++ [s.calls.length] := by
      simp [ids]
    exact
      { counted := by simp [inv.counted]
        nonempty := by simp
        distinct := by
          rw [queue, ← List.append_assoc]
          exact List.nodup_append.mpr ⟨inv.distinct, List.nodup_singleton _,
            fun i known j last same => fresh (by simp_all)⟩
        known := fun i known => by
          rw [queue, ← List.append_assoc, List.mem_append, List.mem_singleton] at known
          simp only [List.length_append, List.length_singleton]
          rcases known with old | rfl
          · exact (inv.known i old).trans (Nat.lt_succ_self _)
          · exact Nat.lt_succ_self _
        tracked := fun i waits => by
          rw [queue, ← List.append_assoc, (last waits).1]
          exact List.mem_append_right _ (List.mem_singleton_self _)
        single := fun i j waits waits' => (last waits).1.trans (last waits').1.symm
        paid := inv.paid
        own := fun i queued => by
          rw [queue, List.mem_append, List.mem_singleton] at queued
          rcases queued with old | rfl
          · rw [List.getElem?_append_left (inv.known i (List.mem_append_right _ old))]
            exact inv.own i old
          · simp
        woken := (unserved_append inv .added).trans inv.woken }

variable {i : Nat}

theorem returned_set_iff {calls : List CallPc} {j : Nat} {pc : CallPc} (other : j ≠ i) :
    (calls.set i pc)[j]? ≠ some .returned ↔ calls[j]? ≠ some .returned := by
  rw [List.getElem?_set_ne (Ne.symm other)]

/-- A call that has not returned after a step of its own or of another one had not before. -/
theorem waits_of_set {s : State} {j : Nat} {pc : CallPc} (before : s.Waits i)
    (waits : ∃ here, (s.calls.set i pc)[j]? = some here ∧ here ≠ .returned) :
    s.Waits j ∧ (j = i → pc ≠ .returned) := by
  obtain ⟨here, found, waits⟩ := waits
  rcases getElem?_set_cases found with ⟨rfl, rfl⟩ | ⟨other, old⟩
  · exact ⟨before, fun _ => waits⟩
  · exact ⟨⟨here, old, waits⟩, fun same => absurd same other⟩

theorem Inv.up {s : State} (inv : Inv s) (added : s.calls[i]? = some .added) : Inv (upSem s i) := by
  have here : s.Waits i := ⟨.added, added, by decide⟩
  -- neither before nor after the step has the caller returned
  have same (j : Nat) : (s.calls.set i .raised)[j]? ≠ some CallPc.returned ↔
      s.calls[j]? ≠ some CallPc.returned := by
    by_cases here : j = i
    · subst here
      have bound := (List.getElem?_eq_some_iff.mp added).1
      simp [added, List.getElem?_set_self bound]
    · exact returned_set_iff here
  exact
    { counted := inv.counted
      nonempty := inv.nonempty
      distinct := inv.distinct
      known := fun j known => by
        rw [upSem, List.length_set]
        exact inv.known j known
      tracked := fun j waits => inv.tracked j (waits_of_set here waits).1
      single := fun j k waits waits' =>
        inv.single j k (waits_of_set here waits).1 (waits_of_set here waits').1
      paid := inv.paid
      own := fun j queued => (same j).mpr (inv.own j queued)
      woken := by
        refine Eq.trans ?_ inv.woken
        refine List.countP_congr fun j _ => ?_
        rw [decide_eq_true_iff, decide_eq_true_iff]
        exact same j }

theorem unserved_wake {s : State} (distinct : (ids s.removed).Nodup)
    (removed : i ∈ ids s.removed) (raised : s.calls[i]? = some .raised) :
    (wake s i).unserved + 1 = s.unserved := by
  have bound := (List.getElem?_eq_some_iff.mp raised).1
  have split := List.perm_cons_erase removed
  have others : ((ids s.removed).erase i).countP (fun j => (s.calls.set i .returned)[j]? ≠ some .returned)
      = ((ids s.removed).erase i).countP (fun j => s.calls[j]? ≠ some .returned) := by
    refine List.countP_congr fun j left => ?_
    have other : j ≠ i := fun same => by
      subst same
      exact (distinct.mem_erase_iff.mp left).1 rfl
    simpa using returned_set_iff other
  unfold State.unserved wake
  rw [split.countP_eq, split.countP_eq, List.countP_cons, List.countP_cons, others]
  simp [raised, List.getElem?_set_self bound]

/-- The completion is for the one caller that waits. -/
theorem Inv.off {s : State} (inv : Inv s) (raised : s.calls[i]? = some .raised)
    (available : 0 < s.done) : i ∉ ids s.hpq := by
  intro queued
  have some' : 0 < s.unserved := by
    rw [inv.woken]
    omega
  obtain ⟨j, removed, waits⟩ := List.countP_pos_iff.mp some'
  obtain ⟨pc, here⟩ : ∃ pc, s.calls[j]? = some pc :=
    ⟨_, List.getElem?_eq_getElem (inv.known j (List.mem_append_left _ removed))⟩
  have same : j = i := by
    refine inv.single j i ⟨pc, here, ?_⟩ ⟨.raised, raised, by decide⟩
    rintro rfl
    simp [here] at waits
  exact (List.nodup_append.mp inv.distinct).2.2 j removed i queued same

theorem Inv.wake {s : State} (inv : Inv s) (raised : s.calls[i]? = some .raised)
    (available : 0 < s.done) : Inv (wake s i) where
  counted := inv.counted
  nonempty := inv.nonempty
  distinct := inv.distinct
  known j known := by
    rw [Hpq.wake, List.length_set]
    exact inv.known j known
  tracked j waits := inv.tracked j (waits_of_set ⟨.raised, raised, by decide⟩ waits).1
  single j k waits waits' := inv.single j k (waits_of_set ⟨.raised, raised, by decide⟩ waits).1
    (waits_of_set ⟨.raised, raised, by decide⟩ waits').1
  paid := inv.paid
  own j queued := by
    have other : j ≠ i := fun same => inv.off raised available (same ▸ queued)
    exact (returned_set_iff other).mpr (inv.own j queued)
  woken := by
    have removed : i ∈ ids s.removed :=
      (List.mem_append.mp (inv.tracked i ⟨.raised, raised, by decide⟩)).resolve_right
        (inv.off raised available)
    have one := unserved_wake (List.nodup_append.mp inv.distinct).1 removed raised
    have all := inv.woken
    change _ = s.done - 1 + s.owed
    omega

theorem Inv.look {s : State} (inv : Inv s) (outside : s.thread = .outside) : Inv (look s) := by
  unfold Hpq.look
  split_ifs with empty
  · exact inv
  · have owed : s.owed = 0 := by simp [State.owed, outside]
    exact
      { inv with
        nonempty := fun _ nil => empty (by rw [inv.counted, nil]; rfl)
        paid := by
          have paid := inv.paid
          rw [owed] at paid
          exact paid
        woken := by
          have all := inv.woken
          rw [owed] at all
          exact all }

theorem pass_spec {s : State} (inv : Inv s) (entered : s.thread = .entered)
    (reads : Nat → Nat → BitVec 32) :
    (pass reads s).hpq = [] ∧ (pass reads s).numHpq = 0 ∧
      ids (pass reads s).removed = ids s.removed ++ ids s.hpq ∧
      (pass reads s).calls = s.calls ∧ (pass reads s).done = s.done ∧
      (pass reads s).completes = s.completes := by
  have some : s.numHpq ≠ 0 := by
    rw [inv.counted, Ne, List.length_eq_zero_iff]
    exact inv.nonempty entered
  obtain ⟨hpq, num, rest⟩ := takeOffAll_spec reads s.hpq 0 s rfl
  simp only [pass, if_neg some]
  refine ⟨hpq, ?_, rest⟩
  rw [num, inv.counted, Nat.sub_self]

theorem ids_length (entries : List Entry) : (ids entries).length = entries.length :=
  List.length_map _

theorem removed_length_pass {s : State} (inv : Inv s) (entered : s.thread = .entered)
    (reads : Nat → Nat → BitVec 32) :
    (pass reads s).removed.length = s.removed.length + s.hpq.length := by
  rw [← ids_length, (pass_spec inv entered reads).2.2.1, List.length_append, ids_length, ids_length]

theorem Inv.waits {s : State} (inv : Inv s) (queued : i ∈ ids s.hpq) : s.Waits i := by
  have here := List.getElem?_eq_getElem (inv.known i (List.mem_append_right _ queued))
  exact ⟨_, here, fun same => inv.own i queued (same ▸ here)⟩

/-- The callers of different commands on the queue would both be under way. -/
theorem Inv.few {s : State} (inv : Inv s) : s.hpq.length ≤ 1 := by
  match queue : s.hpq with
  | [] | [_] => simp
  | a :: b :: rest =>
    have distinct := (List.nodup_append.mp inv.distinct).2.1
    have same : a.1 = b.1 :=
      inv.single _ _ (inv.waits (by simp [queue, ids])) (inv.waits (by simp [queue, ids]))
    simp [queue, ids, same] at distinct

theorem Inv.pass {s : State} (inv : Inv s) (entered : s.thread = .entered)
    (reads : Nat → Nat → BitVec 32) : Inv (pass reads s) := by
  obtain ⟨hpq, num, removed, calls, done, completes⟩ := pass_spec inv entered reads
  have one : s.hpq.length = 1 := by
    have := List.length_pos_of_ne_nil (inv.nonempty entered)
    have := inv.few
    omega
  have before : s.owed = 0 := by simp [State.owed, entered]
  have after : (Hpq.pass reads s).owed = 1 := rfl
  have ids_eq : ids (Hpq.pass reads s).removed ++ ids (Hpq.pass reads s).hpq
      = ids s.removed ++ ids s.hpq := by
    rw [removed, hpq]
    exact List.append_nil _
  exact
    { counted := by rw [num, hpq]; rfl
      nonempty := by intro entered; cases entered
      distinct := by rw [ids_eq]; exact inv.distinct
      known := by rw [ids_eq, calls]; exact inv.known
      tracked := by unfold State.Waits; rw [ids_eq, calls]; exact inv.tracked
      single := by unfold State.Waits; rw [calls]; exact inv.single
      paid := by
        rw [removed_length_pass inv entered reads, after, completes, inv.paid, before, one]
      own := by rw [hpq]; simp [ids]
      woken := by
        -- the caller of the command has not returned, so that it is one more to be served
        have waiting : (ids s.hpq).countP (fun i => s.calls[i]? ≠ some .returned) = 1 := by
          rw [List.countP_eq_length.mpr (fun i queued => decide_eq_true (inv.own i queued)),
            ids_length, one]
        have all := inv.woken
        rw [before] at all
        unfold State.unserved at all ⊢
        rw [removed, calls, List.countP_append, waiting, all, done, after] }

theorem Inv.complete {s : State} (inv : Inv s) (unlocked : s.thread = .unlocked) :
    Inv (complete s) := by
  have before : s.owed = 1 := by simp [State.owed, unlocked]
  exact
    { inv with
      nonempty := by intro entered; cases entered
      paid := by
        have paid := inv.paid
        rw [before] at paid
        exact paid
      woken := by
        have all := inv.woken
        rw [before] at all
        exact all }

theorem Inv.step {s t : State} {e : Event} (inv : Inv s) (alone : Alone s e)
    (made : step s e = some t) : Inv t := by
  obtain ⟨enabled, rfl⟩ := guarded_eq_some_iff.mp made
  cases e with
  | submit xcmd => exact inv.submit alone xcmd
  | up i => exact inv.up enabled
  | wake i => exact inv.wake enabled.1 enabled.2
  | look => exact inv.look enabled
  | pass reads => exact inv.pass enabled reads
  | complete => exact inv.complete enabled
  | others xcu => exact { inv with }

/-- **No wake-up is lost, in any state of a run, if the callers come one at a time:** whatever the
thread of the CU does meanwhile, a command is added only when every earlier call has returned. -/
theorem noLostWakeup_of_alone (xcu : XrtCu) (events : List Event)
    (alone : Along step Alone (start xcu) events) :
    Always step NoLostWakeup (start xcu) events := by
  exact always_of_along (fun _ _ _ inv alone made => inv.step alone made)
    (fun _ inv => inv.noLostWakeup) (Inv.start xcu) alone

def abortOf (handle : BitVec 32) : KdsCommand :=
  ⟨0, 0, .new, .abort, 0, .regmap, [handle], 4⟩

theorem noLostWakeup_two_callers_in_turn :
    Always step NoLostWakeup (start (initial false false false))
      [.submit (abortOf 1), .up 0, .look, .pass fun _ _ => 0, .complete, .wake 0,
        .submit (abortOf 2), .look, .pass fun _ _ => 0, .up 1, .complete, .wake 1] := by
  refine noLostWakeup_of_alone _ _ ?_
  refine along_cons rfl ?_ (along_cons rfl trivial (along_cons rfl trivial (along_cons rfl trivial
    (along_cons rfl trivial (along_cons rfl trivial (along_cons rfl ?_ (along_cons rfl trivial
      (along_cons rfl trivial (along_cons rfl trivial (along_cons rfl trivial
        (along_cons rfl trivial trivial)))))))))))
  · rintro i ⟨pc, ⟨⟩, -⟩
  · rintro (_ | i) ⟨pc, ⟨⟩, waits⟩
    exact waits rfl

/-- Two callers before one pass: both commands are removed, `complete` is called once, and the
second caller waits with nothing left to wake it. And a caller that finds the completion meant for
another one returns while its own command is still on the queue. -/
theorem lost_wakeup :
    ((run step (start (initial false false false))
        [.submit (abortOf 1), .submit (abortOf 2), .up 0, .up 1, .look, .pass fun _ _ => 0,
          .complete, .wake 0]).map
      fun s => (s.removed.length, s.completes, s.thread, s.calls, s.done)) =
        some (2, 1, .outside, [.returned, .raised], 0) ∧
    ((run step (start (initial false false false))
        [.submit (abortOf 1), .up 0, .look, .pass fun _ _ => 0, .complete, .submit (abortOf 2),
          .up 1, .wake 1]).map
      fun s => (ids s.hpq, s.calls, s.done)) = some ([1], [.raised, .returned], 0) := by
  constructor <;> rfl

end Xrt.Cu.Hpq
