import Xrt.Cu.Queues
import Mathlib.Data.List.Perm.Basic
import Mathlib.Data.List.Perm.Lattice
import Mathlib.Data.List.Range

/-!
# Conservation of commands

No queue function loses or duplicates a command. `everywhere` lists the addresses of all
commands, queue by queue and then the freed ones; every step permutes it or, for a
submission, adds the new address. The counters follow the lengths of the lists, so the
list heads that the functions take always exist.
-/
namespace Xrt.Cu

open Lib

def ids (queue : List KdsCommand) : List Nat := queue.map (·.id)

@[simp] theorem ids_nil : ids [] = [] := rfl

@[simp] theorem ids_cons (xcmd : KdsCommand) (queue : List KdsCommand) :
    ids (xcmd :: queue) = xcmd.id :: ids queue := rfl

@[simp] theorem ids_append (first second : List KdsCommand) :
    ids (first ++ second) = ids first ++ ids second := by
  simp [ids]

@[simp] theorem ids_withStatus (status : KdsStatus) (queue : List KdsCommand) :
    ids (queue.map (·.withStatus status)) = ids queue := by
  simp [ids, Function.comp_def]

theorem ids_filter_perm (keep : KdsCommand → Bool) (queue : List KdsCommand) :
    (ids (queue.filter fun xcmd => !keep xcmd) ++ ids (queue.filter keep)).Perm (ids queue) := by
  rw [← ids_append]
  apply List.Perm.map
  exact List.perm_append_comm.trans (List.filter_append_perm keep queue)

/-! ### The core keeps its commands -/

/-- The addresses of the commands that the core holds. -/
def XrtCuHls.held (cu : XrtCuHls) : List Nat := ids (cu.submitted ++ cu.completed)

theorem cuMoveToComplete_held (cu : XrtCuHls) (status : KdsStatus) :
    (cuMoveToComplete cu status).held.Perm cu.held := by
  unfold cuMoveToComplete
  cases front : cu.submitted with
  | nil => rfl
  | cons xcmd rest =>
    simp only [XrtCuHls.held, front, ids_append, ids_cons, ids_nil, KdsCommand.withStatus_id]
    rw [← List.append_assoc]
    exact List.perm_append_comm

theorem cuCompleteTimes_held (n : Nat) (cu : XrtCuHls) :
    (cuCompleteTimes n cu).held.Perm cu.held := by
  induction n generalizing cu with
  | zero => rfl
  | succ n ih => exact (ih _).trans (cuMoveToComplete_held cu .completed)

theorem cuHlsCheck_held (kdsEcho : Bool) (cu : XrtCuHls) (force : Bool) (ctrlReg : BitVec 32) :
    (cuHlsCheck kdsEcho cu force ctrlReg).2.held.Perm cu.held := by
  unfold cuHlsCheck
  split
  · exact cuMoveToComplete_held cu .completed
  · split
    · unfold cuHlsCtrlChainCheck
      dsimp only
      split
      · rfl
      · -- neither the cleared `done` count nor the written register is part of `held`
        split <;> exact cuCompleteTimes_held _ _
    · unfold cuHlsCtrlHsCheck
      split
      · rfl
      · split
        · exact cuMoveToComplete_held cu .completed
        · rfl

theorem cuHlsClearIntr_held (cu : XrtCuHls) (isr ctrlReg : BitVec 32) :
    (cuHlsClearIntr cu isr ctrlReg).held = cu.held := by
  unfold cuHlsClearIntr
  split
  · split <;> rfl
  · rfl

theorem cuHlsAbort_held (cu : XrtCuHls) (matching : KdsCommand → Bool)
    (reads : Nat → BitVec 32) : (cuHlsAbort cu matching reads).2.held.Perm cu.held := by
  simp only [cuHlsAbort, XrtCuHls.held, ids_append, ids_withStatus]
  -- the aborted commands come after the completed ones; move them next to the rest first
  refine (List.perm_append_comm.append_left _).trans ?_
  rw [← List.append_assoc]
  exact (ids_filter_perm matching cu.submitted).append_right _

theorem cuHlsAllocCredit_held (cu : XrtCuHls) : (cuHlsAllocCredit cu).2.held = cu.held := by
  unfold cuHlsAllocCredit
  split <;> rfl

theorem cuHlsStart_held (kdsEcho : Bool) (cu : XrtCuHls) :
    (cuHlsStart kdsEcho cu).held = cu.held := by
  unfold cuHlsStart
  split <;> rfl

variable {cu core : XrtCuHls} {xcmd : KdsCommand}

theorem cuHlsConfigure_writes {kdsEcho : Bool}
    (configured : cuHlsConfigure kdsEcho cu xcmd = some core) :
    ∃ writes, core = cuWrites cu writes := by
  unfold cuHlsConfigure at configured
  split at configured
  · cases configured
    exact ⟨[], by simp [cuWrites]⟩
  · split at configured
    · exact ⟨_, (Option.some.inj configured).symm⟩
    · exact ⟨_, (Option.some.inj configured).symm⟩
    · split at configured
      · exact ⟨_, (Option.some.inj configured).symm⟩
      · split at configured
        · exact ⟨_, (Option.some.inj configured).symm⟩
        · cases configured

theorem xrtCuSubmitConfig_held {kdsEcho refused : Bool}
    (submitted : xrtCuSubmitConfig kdsEcho refused cu xcmd = some core) :
    core.held.Perm (xcmd.id :: cu.held) := by
  unfold xrtCuSubmitConfig cuHlsSubmitConfig at submitted
  split at submitted
  · cases submitted
  · obtain ⟨configuredCore, configured, rfl⟩ := Option.map_eq_some_iff.mp submitted
    obtain ⟨writes, rfl⟩ := cuHlsConfigure_writes configured
    simp only [cuWrites, XrtCuHls.held, ids_append, ids_cons, ids_nil]
    rw [List.append_assoc]
    exact List.perm_middle

/-! ### Where a command is -/

/-- The places a submitted command can be in. -/
inductive Place where
  | pq | rq | submitted | completed | cq | freed
  deriving DecidableEq, Repr

def HostCall.freedId : HostCall → Option Nat
  | .notifyHost _ _ => none
  | .free id => some id

def HostCall.id : HostCall → Nat
  | .notifyHost id _ => id
  | .free id => id

def freedIds (calls : List HostCall) : List Nat := calls.filterMap HostCall.freedId

def XrtCu.found (xcu : XrtCu) : Place → List Nat
  | .pq => ids xcu.pq
  | .rq => ids xcu.rq
  | .submitted => ids xcu.core.submitted
  | .completed => ids xcu.core.completed
  | .cq => ids xcu.cq
  | .freed => freedIds xcu.hostCalls

def XrtCu.everywhere (xcu : XrtCu) : List Nat :=
  ids xcu.pq ++ (ids xcu.rq ++ (xcu.core.held ++ (ids xcu.cq ++ freedIds xcu.hostCalls)))

/-- Every free comes right after the notification of the same command. -/
inductive HandedOver : List HostCall → Prop where
  | nil : HandedOver []
  | next {calls : List HostCall} (id : Nat) (status : KdsStatus) :
      HandedOver calls → HandedOver (calls ++ [.notifyHost id status, .free id])

/-- The invariant of the queues. -/
structure Accounted (xcu : XrtCu) : Prop where
  numPq : xcu.numPq = BitVec.ofNat 32 xcu.pq.length
  numRq : xcu.numRq = BitVec.ofNat 32 xcu.rq.length
  numSq : xcu.numSq = BitVec.ofNat 32 xcu.core.held.length
  numCq : xcu.numCq = BitVec.ofNat 32 xcu.cq.length
  once : xcu.everywhere.Perm (List.range xcu.nextId)
  handed : HandedOver xcu.hostCalls

theorem initial_accounted (ctrlNone ctrlChain swReset : Bool) :
    Accounted (initial ctrlNone ctrlChain swReset) where
  numPq := rfl
  numRq := rfl
  numSq := rfl
  numCq := rfl
  once := List.Perm.refl []
  handed := .nil

variable {xcu : XrtCu}

theorem Accounted.withCore (acc : Accounted xcu)
    (same : core.held.Perm xcu.core.held) : Accounted { xcu with core } where
  numPq := acc.numPq
  numRq := acc.numRq
  numSq := by rw [acc.numSq, ← same.length_eq]
  numCq := acc.numCq
  once := by
    refine List.Perm.trans ?_ acc.once
    exact ((same.append_right _).append_left _).append_left _
  handed := acc.handed

private theorem head_of_counter {queue : List KdsCommand} {num : BitVec 32}
    (counts : num = BitVec.ofNat 32 queue.length) (busy : num ≠ 0) :
    ∃ xcmd rest, queue = xcmd :: rest := by
  cases queue with
  | nil => exact absurd counts busy
  | cons xcmd rest => exact ⟨xcmd, rest, rfl⟩

private theorem ofNat_succ (n : Nat) : BitVec.ofNat 32 (n + 1) = BitVec.ofNat 32 n + 1 :=
  BitVec.ofNat_add n 1

private theorem ofNat_succ_sub (n : Nat) : BitVec.ofNat 32 (n + 1) - 1 = BitVec.ofNat 32 n := by
  rw [ofNat_succ, BitVec.add_sub_cancel]

/-! ### Each queue function keeps the invariant -/

theorem xrtCuSubmit_accounted (acc : Accounted xcu) (xcmd : KdsCommand) :
    Accounted (xrtCuSubmit xcu xcmd) where
  numPq := by
    simp only [xrtCuSubmit, List.length_append, List.length_singleton, ofNat_succ, acc.numPq]
  numRq := acc.numRq
  numSq := acc.numSq
  numCq := acc.numCq
  once := by
    -- the new address is next in the range and stands at the end of `pq`
    simp only [xrtCuSubmit, XrtCu.everywhere, ids_append, ids_cons, ids_nil, List.range_succ]
    rw [List.append_assoc]
    refine List.Perm.trans ?_ (acc.once.append_right [xcu.nextId])
    refine List.perm_middle.trans ?_
    exact (List.perm_append_singleton xcu.nextId xcu.everywhere).symm
  handed := acc.handed

theorem processPq_accounted (acc : Accounted xcu) : Accounted (processPq xcu) := by
  unfold processPq
  split
  · exact acc
  · refine { acc with numPq := rfl, numRq := ?_, once := ?_ }
    · simp only [List.length_append, BitVec.ofNat_add, acc.numRq, acc.numPq]
    · refine List.Perm.trans ?_ acc.once
      simp only [XrtCu.everywhere, ids_append, ids_nil, List.nil_append]
      rw [← List.append_assoc (ids xcu.pq)]
      exact List.perm_append_comm.append_right _

theorem freedIds_append (first second : List HostCall) :
    freedIds (first ++ second) = freedIds first ++ freedIds second := by
  simp [freedIds]

theorem freedIds_handed (id : Nat) (status : KdsStatus) :
    freedIds [.notifyHost id status, .free id] = [id] := rfl

/-- The completed queue is drained without ever finding it empty. -/
theorem processCqLoop_accounted (rounds : Nat) (acc : Accounted xcu)
    (enough : rounds ≤ xcu.cq.length) :
    ∃ after, processCqLoop rounds xcu = some after ∧ Accounted after := by
  induction rounds generalizing xcu with
  | zero => exact ⟨xcu, rfl, acc⟩
  | succ rounds ih =>
    cases front : xcu.cq with
    | nil => simp [front] at enough
    | cons xcmd rest =>
      simp only [processCqLoop, front]
      apply ih
      · refine { acc with numCq := ?_, once := ?_, handed := acc.handed.next xcmd.id xcmd.status }
        · rw [acc.numCq, front, List.length_cons, ofNat_succ_sub]
        · refine List.Perm.trans ?_ acc.once
          -- the head of `cq` becomes the newest freed command
          simp only [XrtCu.everywhere, front, freedIds_append, ids_cons]
          refine ((List.Perm.append_left _ ?_).append_left _).append_left _
          rw [← List.append_assoc]
          exact List.perm_append_singleton xcmd.id (ids rest ++ freedIds xcu.hostCalls)
      · simpa [front] using enough

theorem processCq_accounted (acc : Accounted xcu) :
    ∃ after, processCq xcu = some after ∧ Accounted after := by
  apply processCqLoop_accounted _ acc
  rw [acc.numCq, BitVec.toNat_ofNat]
  exact Nat.mod_le _ _

theorem cuHlsGetComplete_held
    (taken : cuHlsGetComplete cu = some (xcmd, core)) : cu.held.Perm (xcmd.id :: core.held) := by
  unfold cuHlsGetComplete at taken
  split at taken
  · cases taken
  next front =>
    cases taken
    simp only [XrtCuHls.held, front, ids_append, ids_cons]
    exact List.perm_middle

theorem getCompleteLoop_accounted (rounds : Nat) (acc : Accounted xcu) :
    Accounted (getCompleteLoop rounds xcu) := by
  induction rounds generalizing xcu with
  | zero => exact acc
  | succ rounds ih =>
    unfold getCompleteLoop
    split
    · exact acc
    next xcmd core taken =>
      have moved := cuHlsGetComplete_held taken
      apply ih
      refine { acc with numSq := ?_, numCq := ?_, once := ?_ }
      · rw [acc.numSq, moved.length_eq, List.length_cons, ofNat_succ_sub]
      · rw [acc.numCq, List.length_append, List.length_singleton, ofNat_succ]
      · refine List.Perm.trans ?_ acc.once
        -- the command leaves `held` and joins `cq`
        apply List.perm_iff_count.mpr
        intro id
        have balance := moved.count_eq id
        simp only [XrtCu.everywhere, ids_append, ids_cons, ids_nil, List.count_append,
          List.count_cons, List.count_nil] at balance ⊢
        omega

section

variable (acc : Accounted xcu)
include acc

theorem getComplete_accounted : Accounted (getComplete xcu) :=
  getCompleteLoop_accounted _ acc

theorem xrtCuCmdAbort_accounted (matching : KdsCommand → Bool)
    (reads : Nat → BitVec 32) : Accounted (xrtCuCmdAbort xcu matching reads).2 :=
  { acc.withCore (cuHlsAbort_held xcu.core matching reads) with }

theorem abortEventClient_accounted (reads : Nat → BitVec 32) :
    Accounted (abortEventClient reads xcu) := by
  unfold abortEventClient
  split
  · exact acc
  next client event =>
    split
    · exact { acc with }
    · split
      · exact acc
      · exact { xrtCuCmdAbort_accounted acc (abortClient client) reads with }

theorem returnCredits_accounted : Accounted (returnCredits xcu) := by
  unfold returnCredits
  split
  · exact acc
  · exact { acc with }

theorem processSqUnchecked_accounted (reads : Nat → BitVec 32) :
    Accounted (processSqUnchecked reads xcu) := by
  have returned := returnCredits_accounted acc
  unfold processSqUnchecked
  dsimp only
  split
  · exact returned
  · exact getComplete_accounted (abortEventClient_accounted returned reads)

theorem xrtCuCheck_accounted (kdsEcho force : Bool)
    (ctrlReg : BitVec 32) : Accounted (xrtCuCheck kdsEcho force ctrlReg xcu) :=
  { acc.withCore (cuHlsCheck_held kdsEcho xcu.core force ctrlReg) with }

theorem processSq_accounted (kdsEcho : Bool) (ctrlReg : BitVec 32)
    (reads : Nat → BitVec 32) : Accounted (processSq kdsEcho ctrlReg reads xcu) := by
  unfold processSq
  split
  · exact acc
  · exact processSqUnchecked_accounted (xrtCuCheck_accounted acc kdsEcho false ctrlReg) reads

theorem sweepRq_accounted (client : Nat) : Accounted (sweepRq xcu client) := by
  have split := ids_filter_perm (sweeps xcu client) xcu.rq
  refine { acc with numRq := ?_, numCq := ?_, once := ?_ }
  · have lengths := split.length_eq
    simp only [ids, List.length_append, List.length_map] at lengths
    simp only [sweepRq]
    rw [acc.numRq, ← lengths, BitVec.ofNat_add, BitVec.add_sub_cancel]
  · simp only [sweepRq, List.length_append, List.length_map, BitVec.ofNat_add, acc.numCq]
  · refine List.Perm.trans ?_ acc.once
    apply List.perm_iff_count.mpr
    intro id
    have balance := split.count_eq id
    simp only [sweepRq, XrtCu.everywhere, ids_append, ids_withStatus, List.count_append]
      at balance ⊢
    omega

theorem startHead_accounted (kdsEcho refused : Bool) {xcmd : KdsCommand}
    {rest : List KdsCommand} (front : xcu.rq = xcmd :: rest) :
    Accounted (startHead kdsEcho refused xcu xcmd rest).2 := by
  have credited := cuHlsAllocCredit_held xcu.core
  unfold startHead
  dsimp only
  split
  · exact acc.withCore (List.Perm.of_eq credited)
  · split
    · exact acc.withCore (List.Perm.of_eq credited)
    next core submitted =>
      have moved := xrtCuSubmitConfig_held submitted
      rw [credited, ← cuHlsStart_held kdsEcho core] at moved
      refine { acc with numRq := ?_, numSq := ?_, once := ?_ }
      · rw [acc.numRq, front, List.length_cons, ofNat_succ_sub]
      · rw [acc.numSq, moved.length_eq, List.length_cons, ofNat_succ]
      · refine List.Perm.trans ?_ acc.once
        apply List.perm_iff_count.mpr
        intro id
        have balance := moved.count_eq id
        simp only [XrtCu.everywhere, front, ids_cons, List.count_append, List.count_cons]
          at balance ⊢
        omega

theorem processRq_accounted (kdsEcho refused : Bool) :
    ∃ started after, processRq kdsEcho refused xcu = some (started, after) ∧
      Accounted after := by
  unfold processRq
  split
  · exact ⟨false, xcu, rfl, acc⟩
  next busy =>
    split
    next client event => exact ⟨false, _, rfl, sweepRq_accounted acc client⟩
    · obtain ⟨xcmd, rest, front⟩ := head_of_counter acc.numRq busy
      rw [front]
      exact ⟨_, _, rfl, startHead_accounted acc kdsEcho refused front⟩

end

private theorem ids_eraseP_perm {found : KdsCommand → Bool} {queue : List KdsCommand}
    (first : queue.find? found = some xcmd) :
    (ids queue).Perm (xcmd.id :: ids (queue.eraseP found)) := by
  obtain ⟨matched, before, after, rfl, skipped⟩ := List.find?_eq_some_iff_append.mp first
  rw [List.eraseP_append_right _ (by simpa using skipped), List.eraseP_cons_of_pos matched,
    ids_append, ids_append, ids_cons]
  exact List.perm_middle

theorem tryAbortCmd_accounted (acc : Accounted xcu) (reads : Nat → BitVec 32)
    (abortCmd : KdsCommand) : Accounted (tryAbortCmd reads xcu abortCmd).2 := by
  unfold tryAbortCmd
  dsimp only
  split
  next xcmd first =>
    have moved := ids_eraseP_perm first
    refine { acc with numRq := ?_, numCq := ?_, once := ?_ }
    · have lengths := moved.length_eq
      simp only [ids, List.length_map, List.length_cons] at lengths
      rw [acc.numRq, lengths, ofNat_succ_sub]
    · rw [acc.numCq, List.length_append, List.length_singleton, ofNat_succ]
    · refine List.Perm.trans ?_ acc.once
      apply List.perm_iff_count.mpr
      intro id
      have balance := moved.count_eq id
      simp only [XrtCu.everywhere, ids_append, ids_cons, ids_nil, KdsCommand.withStatus_id,
        List.count_append, List.count_cons, List.count_nil] at balance ⊢
      omega
  · split
    · exact acc
    · exact getComplete_accounted (xrtCuCmdAbort_accounted acc _ reads)

theorem processHpqLoop_accounted (reads : Nat → Nat → BitVec 32) (queue : List KdsCommand)
    (i : Nat) (acc : Accounted xcu) : Accounted (processHpqLoop reads queue i xcu) := by
  induction queue generalizing i xcu with
  | nil => exact acc
  | cons xcmd rest ih =>
    apply ih
    unfold processHpqOne
    split
    · exact { tryAbortCmd_accounted acc (reads i) xcmd with }
    · exact { acc with }

theorem processHpq_accounted (acc : Accounted xcu) (reads : Nat → Nat → BitVec 32) :
    Accounted (processHpq reads xcu) := by
  unfold processHpq
  split
  · exact acc
  · exact processHpqLoop_accounted reads xcu.hpq 0 acc

theorem processRqLoop_accounted (kdsEcho : Bool) (refused : Nat → Bool) (rounds : Nat)
    (acc : Accounted xcu) :
    ∃ after, processRqLoop kdsEcho refused rounds xcu = some after ∧ Accounted after := by
  induction rounds generalizing xcu with
  | zero => exact ⟨xcu, rfl, acc⟩
  | succ rounds ih =>
    obtain ⟨started, mid, processed, midAcc⟩ := processRq_accounted acc kdsEcho (refused rounds)
    simp only [processRqLoop, processed, Option.bind_eq_bind, Option.bind_some]
    cases started with
    | true => exact ih midAcc
    | false => exact ⟨mid, rfl, midAcc⟩

/-- A whole scheduler iteration runs to its end and keeps the invariant. -/
theorem xrtCuProcessQueues_accounted (acc : Accounted xcu) (kdsEcho : Bool)
    (answers : Answers) :
    ∃ after, xrtCuProcessQueues kdsEcho answers xcu = some after ∧ Accounted after := by
  obtain ⟨started, ran, startedAcc⟩ := processRqLoop_accounted kdsEcho answers.refused
    ((processPq xcu).rq.length + 1) (processPq_accounted acc)
  obtain ⟨drained, emptied, drainedAcc⟩ := processCq_accounted startedAcc
  simp only [xrtCuProcessQueues, ran, emptied, Option.bind_eq_bind, Option.bind_some]
  have swept := processSq_accounted drainedAcc kdsEcho answers.ctrlReg answers.reads
  exact ⟨_, rfl, processHpq_accounted swept answers.abortReads⟩

/-- No event finds an empty list where it takes the first entry, and every event keeps the
invariant. -/
theorem step_accounted (kdsEcho : Bool) (acc : Accounted xcu) (event : Event) :
    ∃ after, step kdsEcho xcu event = some after ∧ Accounted after := by
  cases event with
  | submit xcmd => exact ⟨_, rfl, xrtCuSubmit_accounted acc xcmd⟩
  | hpqSubmit xcmd =>
    refine ⟨_, rfl, ?_⟩
    unfold xrtCuHpqSubmit
    split
    · exact acc
    · exact { acc with }
  | abort client =>
    refine ⟨_, rfl, ?_⟩
    unfold xrtCuAbort
    split
    · exact acc
    · exact { acc with }
  | abortDone client => exact ⟨_, rfl, { acc with }⟩
  | processPq => exact ⟨_, rfl, processPq_accounted acc⟩
  | processRq refused =>
    obtain ⟨started, after, processed, afterAcc⟩ := processRq_accounted acc kdsEcho refused
    exact ⟨after, by simp only [step, processed, Option.map_some], afterAcc⟩
  | processCq => exact processCq_accounted acc
  | check force ctrlReg => exact ⟨_, rfl, xrtCuCheck_accounted acc kdsEcho force ctrlReg⟩
  | processSq ctrlReg reads => exact ⟨_, rfl, processSq_accounted acc kdsEcho ctrlReg reads⟩
  | processSqUnchecked reads => exact ⟨_, rfl, processSqUnchecked_accounted acc reads⟩
  | processHpq reads => exact ⟨_, rfl, processHpq_accounted acc reads⟩
  | processQueues answers => exact xrtCuProcessQueues_accounted acc kdsEcho answers
  | timer => exact ⟨_, rfl, { acc with }⟩
  | clearIntr isr ctrlReg =>
    exact ⟨_, rfl, acc.withCore (List.Perm.of_eq (cuHlsClearIntr_held xcu.core isr ctrlReg))⟩

theorem run_accounted (kdsEcho : Bool) (acc : Accounted xcu) (events : List Event) :
    ∃ after, run (step kdsEcho) xcu events = some after ∧ Accounted after := by
  induction events generalizing xcu with
  | nil => exact ⟨xcu, rfl, acc⟩
  | cons event events ih =>
    obtain ⟨mid, stepped, midAcc⟩ := step_accounted kdsEcho acc event
    obtain ⟨after, ran, afterAcc⟩ := ih midAcc
    exact ⟨after, (run_cons_iff _ _ _ _).mpr ⟨mid, stepped, ran⟩, afterAcc⟩

/-! ### One place for each command -/

theorem HandedOver.calls {calls : List HostCall} (handed : HandedOver calls) (id : Nat) :
    ((freedIds calls).count id = 0 → calls.filter (·.id == id) = []) ∧
    ((freedIds calls).count id = 1 →
      ∃ status, calls.filter (·.id == id) = [.notifyHost id status, .free id]) := by
  induction handed with
  | nil => simp [freedIds]
  | @next calls last status handed ih =>
    rw [freedIds_append, freedIds_handed, List.count_append, List.filter_append]
    by_cases same : last = id
    · subst same
      refine ⟨fun none => by simp at none, fun once => ⟨status, ?_⟩⟩
      rw [ih.1 (by simpa using once)]
      simp [HostCall.id]
    · simpa [HostCall.id, same] using ih

/-- The command is in exactly one place, once, and the host has been told and given the
command back exactly when that place is `freed`. -/
def XrtCu.InOnePlace (xcu : XrtCu) (id : Nat) : Prop :=
  ∃ place, (xcu.found place).count id = 1 ∧ (∀ other, other ≠ place → id ∉ xcu.found other) ∧
    (place ≠ .freed → xcu.hostCalls.filter (·.id == id) = []) ∧
    (place = .freed →
      ∃ status, xcu.hostCalls.filter (·.id == id) = [.notifyHost id status, .free id])

theorem Accounted.inOnePlace (acc : Accounted xcu) {id : Nat} (submitted : id < xcu.nextId) :
    xcu.InOnePlace id := by
  have total : xcu.everywhere.count id = 1 := by
    rw [acc.once.count_eq]
    exact List.count_eq_one_of_mem List.nodup_range (List.mem_range.mpr submitted)
  have calls := acc.handed.calls id
  -- the six counts add up to one, so one of them is one and the others are zero
  simp only [XrtCu.everywhere, XrtCuHls.held, ids_append, List.count_append] at total
  have others : ∀ place, (xcu.found place).count id = 1 →
      ∀ other, other ≠ place → (xcu.found other).count id = 0 := by
    intro place here other different
    cases place <;> cases other <;> simp only [XrtCu.found] at here ⊢ <;>
      first | omega | exact absurd rfl different
  have somewhere : ∃ place, (xcu.found place).count id = 1 := by
    by_contra nowhere
    have absent : ∀ place, (xcu.found place).count id ≠ 1 := fun place here =>
      nowhere ⟨place, here⟩
    have pq := absent .pq
    have rq := absent .rq
    have submitted := absent .submitted
    have completed := absent .completed
    have cq := absent .cq
    have freed := absent .freed
    simp only [XrtCu.found] at pq rq submitted completed cq freed
    omega
  obtain ⟨place, here⟩ := somewhere
  refine ⟨place, here, ?_, ?_, ?_⟩
  · intro other different
    exact List.count_eq_zero.mp (others place here other different)
  · intro alive
    exact calls.1 (others place here .freed (Ne.symm alive))
  · rintro rfl
    exact calls.2 here

/-- From a fresh CU, every sequence of events runs without touching an empty list; at its
end every command submitted so far is in exactly one place, and each counter is the length
of its list. -/
theorem xrtCu_conserves_commands (kdsEcho ctrlNone ctrlChain swReset : Bool)
    (events : List Event) :
    ∃ xcu, run (step kdsEcho) (initial ctrlNone ctrlChain swReset) events = some xcu ∧
      (∀ id, id < xcu.nextId → xcu.InOnePlace id) ∧
      xcu.numPq = BitVec.ofNat 32 xcu.pq.length ∧
      xcu.numRq = BitVec.ofNat 32 xcu.rq.length ∧
      xcu.numCq = BitVec.ofNat 32 xcu.cq.length ∧
      xcu.numSq = BitVec.ofNat 32 (xcu.core.submitted.length + xcu.core.completed.length) := by
  obtain ⟨xcu, ran, acc⟩ :=
    run_accounted kdsEcho (initial_accounted ctrlNone ctrlChain swReset) events
  refine ⟨xcu, ran, fun id submitted => acc.inOnePlace submitted, acc.numPq, acc.numRq,
    acc.numCq, ?_⟩
  rw [acc.numSq, XrtCuHls.held, ids, List.length_map, List.length_append]

end Xrt.Cu
