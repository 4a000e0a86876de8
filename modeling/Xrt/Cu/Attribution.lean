import Xrt.Cu.Conservation

/-!
# Which `ap_done` completes which command

The HLS core together with the hardware behind it. The hardware finishes started commands
in the order they were started and raises one `ap_done` for each; a check that reads the
control register with the done bit set consumes the `ap_done` of the oldest command still
in flight. A software reset may take every command in flight with it. The core only has the
position in its submitted list to go by, so the two orders agree as long as no abort or
reset has come between them.
-/
namespace Xrt.Cu.Attribution

open Lib

/-- The core, the hardware, and what has happened to each command. -/
structure Pipeline where
  cu : XrtCuHls
  /-- Started commands whose `ap_done` has not been consumed, oldest first. -/
  inFlight : List Nat
  /-- The commands that an abort has matched. -/
  aborted : List Nat
  /-- The commands that a reset took out of the hardware. -/
  dropped : List Nat
  nextId : Nat
  /-- For every command completed by a check, the owner of the `ap_done` it consumed. -/
  completions : List (Option Nat × Nat)
  deriving DecidableEq, Repr

def initial (ctrlChain swReset : Bool) : Pipeline where
  cu := xrtCuHlsInit ctrlChain swReset
  inFlight := []
  aborted := []
  dropped := []
  nextId := 0
  completions := []

/-- Whether `cu_hls_check` gets as far as reading the control register. -/
def readsCtrl (cu : XrtCuHls) (force : Bool) : Bool :=
  force || cu.runCnts != 0 || (cu.ctrlChain && cu.maxCredits - cu.credits != 0)

/-- The check consumes an `ap_done`. -/
def consumesDone (cu : XrtCuHls) (force : Bool) (ctrlReg : BitVec 32) : Bool :=
  readsCtrl cu force && bitSet ctrlReg CU_AP_DONE

inductive Event where
  /-- `cu_hls_submit_config` and, if it succeeds, `cu_hls_start`. -/
  | start (xcmd : KdsCommand)
  | check (force : Bool) (ctrlReg : BitVec 32)
  /-- `takesInFlight`: the reset of this abort, if the CU has one, empties the hardware. -/
  | abort (matching : KdsCommand → Bool) (reads : Nat → BitVec 32) (takesInFlight : Bool)

def start (s : Pipeline) (xcmd : KdsCommand) : Pipeline :=
  match cuHlsSubmitConfig false s.cu { xcmd with id := s.nextId } with
  | none => s
  | some cu =>
    { s with
      cu := cuHlsStart false cu
      inFlight := s.inFlight ++ [s.nextId]
      nextId := s.nextId + 1 }

def newlyCompleted (before after : XrtCuHls) : List Nat :=
  ids (after.completed.drop before.completed.length)

/-- `none`: the hardware does not raise `ap_done` with nothing in flight. -/
def check (s : Pipeline) (force : Bool) (ctrlReg : BitVec 32) : Option Pipeline :=
  let cu := (cuHlsCheck false s.cu force ctrlReg).2
  if consumesDone s.cu force ctrlReg then
    match s.inFlight with
    | [] => none
    | owner :: rest =>
      some { s with
        cu
        inFlight := rest
        completions := s.completions ++ (newlyCompleted s.cu cu).map (some owner, ·) }
  else
    some { s with
      cu, completions := s.completions ++ (newlyCompleted s.cu cu).map (none, ·) }

def abort (s : Pipeline) (matching : KdsCommand → Bool) (reads : Nat → BitVec 32)
    (takesInFlight : Bool) : Pipeline :=
  let taken := if s.cu.swReset && takesInFlight then s.inFlight else []
  { s with
    cu := (cuHlsAbort s.cu matching reads).2
    inFlight := if s.cu.swReset && takesInFlight then [] else s.inFlight
    aborted := s.aborted ++ ids (s.cu.submitted.filter matching)
    dropped := s.dropped ++ taken }

def step (s : Pipeline) : Event → Option Pipeline
  | .start xcmd => some (start s xcmd)
  | .check force ctrlReg => check s force ctrlReg
  | .abort matching reads takesInFlight => some (abort s matching reads takesInFlight)

/-- Every command completed so far was completed by its own `ap_done`. -/
def Pipeline.Attributed (s : Pipeline) : Prop := ∀ done ∈ s.completions, done.1 = some done.2

/-- The condition on one step: an `ap_done` that is consumed while commands are submitted
belongs to a command that was not aborted, and none of the submitted commands has been
dropped by a reset. -/
def Undisturbed (s : Pipeline) : Event → Prop
  | .check force ctrlReg =>
    consumesDone s.cu force ctrlReg = true → s.cu.submitted ≠ [] →
      (∀ owner, s.inFlight.head? = some owner → owner ∉ s.aborted) ∧
      ∀ xcmd ∈ s.cu.submitted, xcmd.id ∉ s.dropped
  | _ => True

/-! ### What a check does -/

/-- A check that consumes no `ap_done` leaves the lists; one that does completes the oldest
submitted command. The interrupt handler counts no `ap_done` of its own here. -/
structure Checked (cu : XrtCuHls) (consumes : Bool) (after : XrtCuHls) : Prop where
  done : after.done = 0
  submitted : after.submitted = if consumes then cu.submitted.tail else cu.submitted
  completed : after.completed =
    if consumes then cu.completed ++ (cu.submitted.take 1).map (·.withStatus .completed)
    else cu.completed

theorem cuMoveToComplete_checked (cu : XrtCuHls) (noInterrupt : cu.done = 0) :
    Checked cu true (cuMoveToComplete cu .completed) := by
  unfold cuMoveToComplete
  cases front : cu.submitted with
  | nil => exact ⟨noInterrupt, by simp [front], by simp [front]⟩
  | cons xcmd rest => exact ⟨noInterrupt, by simp [front], by simp [front]⟩

theorem cuHlsCtrlHsCheck_checked {cu : XrtCuHls} (noInterrupt : cu.done = 0)
    (hs : cu.ctrlChain = false) (force : Bool) (ctrlReg : BitVec 32) :
    Checked cu (consumesDone cu force ctrlReg) (cuHlsCtrlHsCheck cu force ctrlReg).2 := by
  unfold cuHlsCtrlHsCheck consumesDone readsCtrl
  split
  next skipped =>
    have noRead : (force || cu.runCnts != 0) = false := by
      cases force <;> simp_all
    simp only [hs, noRead, Bool.false_and, Bool.or_false]
    exact ⟨noInterrupt, rfl, rfl⟩
  next reads =>
    have read : (force || cu.runCnts != 0) = true := by
      cases force <;> simp_all
    split
    next done =>
      simp only [read, done, Bool.true_or, Bool.true_and]
      exact cuMoveToComplete_checked cu noInterrupt
    next running =>
      simp only [running, Bool.and_false]
      exact ⟨noInterrupt, rfl, rfl⟩

theorem cuHlsCtrlChainCheck_checked {cu : XrtCuHls} (noInterrupt : cu.done = 0)
    (chain : cu.ctrlChain = true) (force : Bool) (ctrlReg : BitVec 32) :
    Checked cu (consumesDone cu force ctrlReg) (cuHlsCtrlChainCheck cu force ctrlReg).2 := by
  unfold cuHlsCtrlChainCheck consumesDone readsCtrl
  dsimp only
  split
  next skipped =>
    have noRead : (force || cu.runCnts != 0 ||
        (cu.ctrlChain && cu.maxCredits - cu.credits != 0)) = false := by
      cases force <;> simp_all
    simp only [noRead, Bool.false_and]
    exact ⟨noInterrupt, rfl, rfl⟩
  next reads =>
    have read : (force || cu.runCnts != 0 ||
        (cu.ctrlChain && cu.maxCredits - cu.credits != 0)) = true := by
      cases force <;> simp_all
      tauto
    split
    next done =>
      -- with no `ap_done` counted by the interrupt handler the loop runs once
      simp only [read, done, noInterrupt, Bool.true_and, cuCompleteTimes]
      exact { cuMoveToComplete_checked
        (cuWrite32 { cu with done := 0 } CTRL CU_AP_CONTINUE) rfl with }
    next running =>
      simp only [running, noInterrupt, Bool.and_false, cuCompleteTimes]
      exact ⟨rfl, rfl, rfl⟩

theorem cuHlsCheck_checked {cu : XrtCuHls} (noInterrupt : cu.done = 0) (force : Bool)
    (ctrlReg : BitVec 32) :
    Checked cu (consumesDone cu force ctrlReg) (cuHlsCheck false cu force ctrlReg).2 := by
  unfold cuHlsCheck
  cases chain : cu.ctrlChain with
  | false => exact cuHlsCtrlHsCheck_checked noInterrupt chain force ctrlReg
  | true => exact cuHlsCtrlChainCheck_checked noInterrupt chain force ctrlReg

/-! ### The invariant of an undisturbed pipeline -/

/-- The started commands that the core still waits for, in the order they were started. -/
def Pipeline.live (s : Pipeline) : List Nat := s.inFlight.filter (· ∉ s.aborted)

/-- The submitted list is what resets have left behind, followed by the live commands. -/
structure Ordered (s : Pipeline) : Prop where
  noInterrupt : s.cu.done = 0
  split : ∃ stale, ids s.cu.submitted = stale ++ s.live ∧ ∀ id ∈ stale, id ∈ s.dropped
  running : ∀ id ∈ s.inFlight, id ∉ s.dropped
  inFlightNodup : s.inFlight.Nodup
  submittedNodup : (ids s.cu.submitted).Nodup
  inFlightOld : ∀ id ∈ s.inFlight, id < s.nextId
  abortedOld : ∀ id ∈ s.aborted, id < s.nextId
  droppedOld : ∀ id ∈ s.dropped, id < s.nextId
  attributed : s.Attributed

theorem initial_ordered (ctrlChain swReset : Bool) : Ordered (initial ctrlChain swReset) where
  noInterrupt := rfl
  split := ⟨[], rfl, by simp⟩
  running := by simp [initial]
  inFlightNodup := List.nodup_nil
  submittedNodup := List.nodup_nil
  inFlightOld := by simp [initial]
  abortedOld := by simp [initial]
  droppedOld := by simp [initial]
  attributed := by simp [Pipeline.Attributed, initial]

variable {s t : Pipeline}

theorem Ordered.submittedOld (ordered : Ordered s) : ∀ id ∈ ids s.cu.submitted, id < s.nextId := by
  obtain ⟨stale, split, staleDropped⟩ := ordered.split
  intro id member
  rw [split, List.mem_append] at member
  rcases member with left | live
  · exact ordered.droppedOld id (staleDropped id left)
  · exact ordered.inFlightOld id (List.mem_of_mem_filter live)

theorem notMem_of_old {queue : List Nat} (old : ∀ id ∈ queue, id < s.nextId) :
    s.nextId ∉ queue :=
  fun member => Nat.lt_irrefl _ (old _ member)

theorem nodup_concat_of_old {queue : List Nat} (nodup : queue.Nodup)
    (old : ∀ id ∈ queue, id < s.nextId) : (queue ++ [s.nextId]).Nodup := by
  apply List.Nodup.append nodup (List.nodup_singleton _)
  rw [List.disjoint_singleton]
  exact notMem_of_old old

theorem cuHlsStart_submitted (cu : XrtCuHls) : (cuHlsStart false cu).submitted = cu.submitted :=
  rfl

theorem start_ordered (ordered : Ordered s) (xcmd : KdsCommand) : Ordered (start s xcmd) := by
  unfold start
  split
  · exact ordered
  next core submitted =>
    obtain ⟨configuredCore, configured, rfl⟩ := Option.map_eq_some_iff.mp submitted
    obtain ⟨writes, rfl⟩ := cuHlsConfigure_writes configured
    have fresh : s.nextId ∉ s.aborted := notMem_of_old ordered.abortedOld
    obtain ⟨stale, split, staleDropped⟩ := ordered.split
    have grown : ids (s.cu.submitted ++ [{ xcmd with id := s.nextId }]) =
        ids s.cu.submitted ++ [s.nextId] := by
      simp
    refine { ordered with
      noInterrupt := ordered.noInterrupt
      split := ⟨stale, ?_, staleDropped⟩
      running := ?_
      inFlightNodup := ?_
      submittedNodup := ?_
      inFlightOld := ?_
      abortedOld := fun id member => Nat.lt_succ_of_lt (ordered.abortedOld id member)
      droppedOld := fun id member => Nat.lt_succ_of_lt (ordered.droppedOld id member) }
    · -- the new command is last on the list and last in flight
      simp only [cuHlsStart_submitted, cuWrites, grown, split, Pipeline.live, List.filter_append,
        List.append_assoc]
      simp [fresh]
    · intro id member
      rcases List.mem_append.mp member with old | new
      · exact ordered.running id old
      · rw [List.mem_singleton.mp new]
        exact notMem_of_old ordered.droppedOld
    · exact nodup_concat_of_old ordered.inFlightNodup ordered.inFlightOld
    · simp only [cuHlsStart_submitted, cuWrites, grown]
      exact nodup_concat_of_old ordered.submittedNodup ordered.submittedOld
    · intro id member
      rcases List.mem_append.mp member with old | new
      · exact Nat.lt_succ_of_lt (ordered.inFlightOld id old)
      · rw [List.mem_singleton.mp new]
        exact Nat.lt_succ_self _

theorem Checked.newlyCompleted {cu after : XrtCuHls} {consumes : Bool}
    (checked : Checked cu consumes after) :
    newlyCompleted cu after = if consumes then (ids cu.submitted).take 1 else [] := by
  unfold Attribution.newlyCompleted
  rw [checked.completed]
  cases consumes <;> simp [ids, Function.comp_def]

section

variable (ordered : Ordered s)
include ordered

theorem Ordered.head_iff {owner : Nat} {rest : List Nat} (flight : s.inFlight = owner :: rest) :
    (owner ∉ s.aborted ∧ ∀ xcmd ∈ s.cu.submitted, xcmd.id ∉ s.dropped) ↔
      (ids s.cu.submitted).head? = some owner := by
  obtain ⟨stale, split, staleDropped⟩ := ordered.split
  have ownerKept : owner ∉ s.dropped := ordered.running owner (by simp [flight])
  cases stale with
  | cons first others =>
    -- the head was dropped by a reset, so it is not in flight
    have firstDropped := staleDropped first List.mem_cons_self
    have member : first ∈ ids s.cu.submitted := by simp [split]
    obtain ⟨xcmd, submitted, rfl⟩ := List.mem_map.mp member
    refine iff_of_false (fun kept => kept.2 xcmd submitted firstDropped) ?_
    rw [split]
    rintro ⟨⟩
    exact ownerKept firstDropped
  | nil =>
    rw [List.nil_append] at split
    have kept : ∀ xcmd ∈ s.cu.submitted, xcmd.id ∉ s.dropped := by
      intro xcmd submitted
      have member : xcmd.id ∈ s.live := split ▸ List.mem_map_of_mem submitted
      exact ordered.running _ (List.mem_of_mem_filter member)
    rw [and_iff_left kept, split, Pipeline.live, flight]
    by_cases abortedOwner : owner ∈ s.aborted
    · refine iff_of_false (fun kept => kept abortedOwner) (fun head => ?_)
      have member := List.mem_of_mem_head? head
      simp [abortedOwner] at member
    · simp [abortedOwner]

/-- If the oldest submitted command is the owner of the `ap_done`, or nothing is submitted,
the rest of the two orders agrees as well. -/
theorem Ordered.tail_split {owner : Nat} {rest : List Nat} (flight : s.inFlight = owner :: rest)
    (own : s.cu.submitted ≠ [] → (ids s.cu.submitted).head? = some owner) :
    (ids s.cu.submitted).tail = rest.filter (· ∉ s.aborted) := by
  obtain ⟨stale, split, staleDropped⟩ := ordered.split
  simp only [Pipeline.live, flight, List.filter_cons] at split
  by_cases empty : s.cu.submitted = []
  · -- nothing is live, so the owner was aborted and so were the rest
    simp only [empty, ids_nil] at split ⊢
    have noLive := (List.append_eq_nil_iff.mp split.symm).2
    split at noLive
    · cases noLive
    · exact noLive.symm
  · have head := own empty
    obtain ⟨kept, notDropped⟩ := (ordered.head_iff flight).mpr head
    rw [if_pos (by simpa using kept)] at split
    cases stale with
    | nil => rw [split]; rfl
    | cons first others =>
      -- impossible: a stale head has been dropped, and the owner is in flight
      have firstOwner : first = owner := by simpa [split] using head
      have ownerDropped := staleDropped first List.mem_cons_self
      exact absurd (firstOwner ▸ ownerDropped) (ordered.running owner (by simp [flight]))

/-- A check under the condition completes the owner of the `ap_done`, or nothing. -/
theorem check_ordered {force : Bool} {ctrlReg : BitVec 32}
    (undisturbed : Undisturbed s (.check force ctrlReg))
    (stepped : check s force ctrlReg = some t) : Ordered t := by
  have checked := cuHlsCheck_checked ordered.noInterrupt force ctrlReg
  unfold check at stepped
  dsimp only at stepped
  rw [checked.newlyCompleted] at stepped
  split at stepped
  next consumes =>
    rw [consumes] at checked
    cases flight : s.inFlight with
    | nil => simp [flight] at stepped
    | cons owner rest =>
      simp only [flight, Option.some.injEq] at stepped
      subst stepped
      -- the condition makes the completed command the owner of the `ap_done`
      have own : s.cu.submitted ≠ [] → (ids s.cu.submitted).head? = some owner := by
        intro waiting
        obtain ⟨notAborted, notDropped⟩ := undisturbed consumes waiting
        exact (ordered.head_iff flight).mp
          ⟨notAborted owner (by simp [flight]), notDropped⟩
      have tail := ordered.tail_split flight own
      have left : ids (cuHlsCheck false s.cu force ctrlReg).2.submitted =
          (ids s.cu.submitted).tail := by
        simp [checked.submitted, ids]
      have nodup := ordered.inFlightNodup
      rw [flight, List.nodup_cons] at nodup
      refine { ordered with
        noInterrupt := checked.done
        split := ⟨[], by rw [left, tail]; rfl, by simp⟩
        running := fun id member => ordered.running id (by simp [flight, member])
        inFlightNodup := nodup.2
        submittedNodup := left ▸ ordered.submittedNodup.sublist (List.tail_sublist _)
        inFlightOld := fun id member => ordered.inFlightOld id (by simp [flight, member])
        attributed := ?_ }
      intro done member
      rcases List.mem_append.mp member with old | new
      · exact ordered.attributed done old
      · obtain ⟨id, taken, rfl⟩ := List.mem_map.mp new
        have waiting : s.cu.submitted ≠ [] := by
          rintro empty
          simp [empty] at taken
        obtain ⟨others, front⟩ := List.head?_eq_some_iff.mp (own waiting)
        simpa [front, eq_comm] using taken
  next silent =>
    -- nothing is completed
    rw [Bool.not_eq_true] at silent
    rw [silent] at checked
    cases stepped
    refine { ordered with
      noInterrupt := checked.done
      split := ?_
      submittedNodup := ?_
      attributed := ?_ }
    · rw [checked.submitted]
      exact ordered.split
    · rw [checked.submitted]
      exact ordered.submittedNodup
    · simpa [Pipeline.Attributed, silent] using ordered.attributed

end

private theorem ids_filter_unmatched {queue : List KdsCommand} (nodup : (ids queue).Nodup)
    (matching : KdsCommand → Bool) :
    ids (queue.filter fun xcmd => !matching xcmd) =
      (ids queue).filter (· ∉ ids (queue.filter matching)) := by
  unfold ids
  rw [List.filter_map]
  congr 1
  apply List.filter_congr
  intro xcmd member
  have found : xcmd.id ∈ (queue.filter matching).map (·.id) ↔ matching xcmd = true := by
    constructor
    · intro mapped
      obtain ⟨other, filtered, same⟩ := List.mem_map.mp mapped
      obtain ⟨otherMember, matched⟩ := List.mem_filter.mp filtered
      rwa [← List.inj_on_of_nodup_map nodup otherMember member same]
    · intro matched
      exact List.mem_map_of_mem (List.mem_filter.mpr ⟨member, matched⟩)
  simp only [Function.comp_apply, found, decide_not, Bool.decide_eq_true]

theorem cuHlsAbort_done (cu : XrtCuHls) (matching : KdsCommand → Bool)
    (reads : Nat → BitVec 32) : (cuHlsAbort cu matching reads).2.done = cu.done := by
  unfold cuHlsAbort abortReset
  split
  · split <;> rfl
  · rfl

section

variable (ordered : Ordered s)
include ordered

theorem abort_ordered (matching : KdsCommand → Bool)
    (reads : Nat → BitVec 32) (takesInFlight : Bool) :
    Ordered (abort s matching reads takesInFlight) := by
  obtain ⟨stale, split, staleDropped⟩ := ordered.split
  have removedOld : ∀ id ∈ ids (s.cu.submitted.filter matching), id < s.nextId := by
    intro id member
    exact ordered.submittedOld id ((List.filter_sublist.map _).subset member)
  have left := ids_filter_unmatched ordered.submittedNodup matching
  have abortedOld : ∀ id ∈ s.aborted ++ ids (s.cu.submitted.filter matching), id < s.nextId := by
    intro id member
    rcases List.mem_append.mp member with old | new
    · exact ordered.abortedOld id old
    · exact removedOld id new
  unfold abort
  cases reset : (s.cu.swReset && takesInFlight) with
  | true =>
    -- nothing is in flight any more: all that is left on the list is stale
    refine { ordered with
      noInterrupt := (cuHlsAbort_done ..).trans ordered.noInterrupt
      split := ⟨ids (s.cu.submitted.filter fun xcmd => !matching xcmd), ?_, ?_⟩
      running := by simp
      inFlightNodup := List.nodup_nil
      submittedNodup := left ▸ ordered.submittedNodup.filter _
      inFlightOld := by simp
      abortedOld := abortedOld
      droppedOld := ?_ }
    · exact (List.append_nil _).symm
    · intro id member
      rw [left, split] at member
      rcases List.mem_append.mp (List.mem_of_mem_filter member) with old | live
      · exact List.mem_append_left _ (staleDropped id old)
      · exact List.mem_append_right _ (List.mem_of_mem_filter live)
    · intro id member
      rcases List.mem_append.mp member with old | new
      · exact ordered.droppedOld id old
      · exact ordered.inFlightOld id new
  | false =>
    -- the matching commands go from the list and count as aborted, also while in flight
    refine { ordered with
      noInterrupt := (cuHlsAbort_done ..).trans ordered.noInterrupt
      split := ⟨stale.filter (· ∉ ids (s.cu.submitted.filter matching)), ?_, ?_⟩
      running := ?_
      submittedNodup := left ▸ ordered.submittedNodup.filter _
      abortedOld := abortedOld
      droppedOld := ?_ }
    · -- an address is live after the abort if it was live before and is not removed
      have live : (s.inFlight.filter fun id =>
          id ∉ s.aborted ++ ids (s.cu.submitted.filter matching)) =
            s.live.filter (· ∉ ids (s.cu.submitted.filter matching)) := by
        rw [Pipeline.live, List.filter_filter]
        apply List.filter_congr
        simp [Bool.and_comm]
      refine left.trans ?_
      simp only [Pipeline.live, Bool.false_eq_true, if_false]
      rw [live, split, List.filter_append]
    · intro id member
      exact List.mem_append_left _ (staleDropped id (List.mem_of_mem_filter member))
    · simpa using ordered.running
    · simpa using ordered.droppedOld

/-- A check that fails the condition completes a command with the `ap_done` of another. -/
theorem check_misattributes {force : Bool} {ctrlReg : BitVec 32}
    (disturbed : ¬ Undisturbed s (.check force ctrlReg))
    (stepped : check s force ctrlReg = some t) : ¬ t.Attributed := by
  have checked := cuHlsCheck_checked ordered.noInterrupt force ctrlReg
  simp only [Undisturbed, Classical.not_imp] at disturbed
  obtain ⟨consumes, waiting, wrong⟩ := disturbed
  simp only [check, checked.newlyCompleted, consumes, if_true] at stepped
  cases flight : s.inFlight with
  | nil => simp [flight] at stepped
  | cons owner rest =>
    simp only [flight, Option.some.injEq] at stepped
    subst stepped
    obtain ⟨oldest, others, front⟩ := List.exists_cons_of_ne_nil waiting
    intro attributed
    have own := attributed (some owner, oldest.id) (by simp [front])
    apply wrong
    have head : (ids s.cu.submitted).head? = some owner := by
      rw [front, ids_cons, List.head?_cons]
      exact own.symm
    obtain ⟨kept, notDropped⟩ := (ordered.head_iff flight).mpr head
    exact ⟨by simpa [flight] using kept, notDropped⟩

theorem step_ordered {event : Event} (undisturbed : Undisturbed s event)
    (stepped : step s event = some t) : Ordered t := by
  cases event with
  | start xcmd =>
    cases stepped
    exact start_ordered ordered xcmd
  | check force ctrlReg => exact check_ordered ordered undisturbed stepped
  | abort matching reads takesInFlight =>
    cases stepped
    exact abort_ordered ordered matching reads takesInFlight

theorem step_misattributes {event : Event}
    (disturbed : ¬ Undisturbed s event) (stepped : step s event = some t) : ¬ t.Attributed := by
  cases event with
  | check force ctrlReg => exact check_misattributes ordered disturbed stepped
  | start xcmd => exact absurd trivial disturbed
  | abort matching reads takesInFlight => exact absurd trivial disturbed

end

theorem step_completions {event : Event} (stepped : step s event = some t) :
    s.completions <+: t.completions := by
  cases event with
  | start xcmd =>
    cases stepped
    unfold start
    split <;> exact List.prefix_rfl
  | check force ctrlReg =>
    simp only [step, check] at stepped
    split at stepped
    · split at stepped
      · cases stepped
      · cases stepped
        exact List.prefix_append _ _
    · cases stepped
      exact List.prefix_append _ _
  | abort matching reads takesInFlight =>
    cases stepped
    exact List.prefix_rfl

/-- Along a run, every completion belongs to its own `ap_done` exactly if every check that
consumes an `ap_done` while commands are submitted consumes that of a command that was
not aborted, with no submitted command dropped by a reset before. -/
theorem cuHlsCheck_attribution_iff (ctrlChain swReset : Bool) (events : List Event)
    (s : Pipeline) (ran : run step (initial ctrlChain swReset) events = some s) :
    s.Attributed ↔ Along step Undisturbed (initial ctrlChain swReset) events := by
  apply run_good_iff_along (P := Ordered) _ _ _ _ (initial_ordered ctrlChain swReset) ran
  · intro s event t ordered undisturbed stepped
    exact step_ordered ordered undisturbed stepped
  · intro s ordered
    exact ordered.attributed
  · intro s event t ordered disturbed stepped
    exact step_misattributes ordered disturbed stepped
  · intro s event t wrong stepped attributed
    exact wrong fun done member => attributed done ((step_completions stepped).subset member)

def plainCommand (client : Nat) : KdsCommand where
  id := 0
  client := client
  status := .new
  opcode := .start
  execBoHandle := 0
  payloadType := .regmap
  info := []
  isize := 0

/-- Two commands are started on an `ap_ctrl_chain` CU. The first completes in order; the
second is aborted, and its late `ap_done` finds nothing submitted. -/
def quietRun : List Event :=
  [.start (plainCommand 0), .check false 0, .start (plainCommand 1), .check false CU_AP_DONE,
    .abort (abortClient 1) (fun _ => 0) false, .check false CU_AP_DONE]

theorem cuHlsCheck_attribution_quiet :
    ∃ s, run step (initial true false) quietRun = some s ∧ s.completions = [(some 0, 0)] ∧
      Along step Undisturbed (initial true false) quietRun := by
  refine ⟨_, rfl, rfl, (cuHlsCheck_attribution_iff true false quietRun _ rfl).mp ?_⟩
  intro done member
  cases List.mem_singleton.mp (show done ∈ [(some 0, 0)] from member)
  rfl

/-- The same start, but the first command is aborted while both are in flight: its late
`ap_done` completes the second command, of another client. -/
def lateRun : List Event :=
  [.start (plainCommand 0), .check false 0, .start (plainCommand 1),
    .abort (abortClient 0) (fun _ => 0) false, .check false CU_AP_DONE]

theorem cuHlsCheck_late_done_misattributed :
    ∃ s, run step (initial true false) lateRun = some s ∧ s.completions = [(some 0, 1)] ∧
      ¬ s.Attributed := by
  refine ⟨_, rfl, rfl, ?_⟩
  intro attributed
  have := attributed (some 0, 1) (by decide)
  simp at this

end Xrt.Cu.Attribution
