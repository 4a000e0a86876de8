import Xrt.Cu.Queues

/-!
# Aborting one command

An abort request names a command by its `exec_bo_handle`. `kds_cu_abort_cmd` does not know which CU
has the command: it hands the request to one CU after the other, each runs `try_abort_cmd`, and the
first CU that changes the status of the request ends the broadcast.

`try_abort_cmd` does so in two cases: a command with the handle is on the run queue, or there is
anything at all on the submitted queue. In the second case the CU is reset, or marked bad, whether
or not a command matches. So the request reaches its target only if no CU before it is busy with
something else.
-/
namespace Xrt.Cu

def abortRequest (id client : Nat) (handle : BitVec 32) : KdsCommand :=
  ⟨id, client, .new, .abort, 0, .regmap, [handle], 4⟩

/-- `xrt_cu_hpq_submit` up to its return: the thread of the CU runs `try_abort_cmd`. -/
def xrtCuTryAbort (reads : Nat → BitVec 32) (xcu : XrtCu) (abortCmd : KdsCommand) :
    KdsCommand × XrtCu :=
  if xcu.ctrlNone then (abortCmd, xcu) else tryAbortCmd reads xcu abortCmd

/-- The loop over `cu_mgmt->xcus`; `reads i` are the polls of a reset of the `i`-th CU. Returns the
request with the status it is notified with. -/
def abortLoop (reads : Nat → Nat → BitVec 32) :
    Nat → List (Option XrtCu) → KdsCommand → KdsCommand × List (Option XrtCu)
  | _, [], xcmd => (xcmd.withStatus .error, [])
  | i, none :: rest, xcmd =>
    let after := abortLoop reads (i + 1) rest xcmd
    (after.1, none :: after.2)
  | i, some xcu :: rest, xcmd =>
    let tried := xrtCuTryAbort (reads i) xcu xcmd
    if tried.1.status = .new then
      let after := abortLoop reads (i + 1) rest tried.1
      (after.1, some tried.2 :: after.2)
    else (tried.1, some tried.2 :: rest)

/-- The CUs of a domain and the state of the scheduler, as far as an abort changes them. -/
structure KdsCuMgmt where
  xcus : List (Option XrtCu)
  /-- `kds->bad_state`. -/
  badState : Bool
  /-- Every `cb.notify_host` and `cb.free` for a request, oldest first. -/
  hostCalls : List HostCall
  deriving DecidableEq, Repr

def kdsCuAbortCmd (reads : Nat → Nat → BitVec 32) (mgmt : KdsCuMgmt) (xcmd : KdsCommand) :
    KdsCuMgmt :=
  let ended := abortLoop reads 0 mgmt.xcus xcmd
  { xcus := ended.2
    badState := mgmt.badState || ended.1.status == .timeout
    hostCalls := mgmt.hostCalls ++ [.notifyHost xcmd.id ended.1.status, .free xcmd.id] }

/-! ### What an abort may do to a CU -/

def XrtCu.commands (xcu : XrtCu) : List KdsCommand :=
  xcu.pq ++ xcu.rq ++ xcu.core.submitted ++ xcu.core.completed ++ xcu.cq

def Holds (handle : BitVec 32) (xcu : XrtCu) : Prop :=
  ∃ xcmd ∈ xcu.commands, xcmd.execBoHandle = handle

/-- The queues, the credits and `bad_state` are the same, and nothing was written to the registers,
so that there was no reset. -/
structure Untouched (xcu after : XrtCu) : Prop where
  pq : after.pq = xcu.pq
  rq : after.rq = xcu.rq
  submitted : after.core.submitted = xcu.core.submitted
  completed : after.core.completed = xcu.core.completed
  cq : after.cq = xcu.cq
  credits : after.core.credits = xcu.core.credits
  badState : after.badState = xcu.badState
  writes : after.core.writes = xcu.core.writes

theorem Untouched.refl (xcu : XrtCu) : Untouched xcu xcu := by
  constructor <;> rfl

/-- The commands with other handles are the same ones, with the same status. -/
def OthersKept (handle : BitVec 32) (xcu after : XrtCu) : Prop :=
  (after.commands.filter fun xcmd => !abortHandle handle xcmd).Perm
    (xcu.commands.filter fun xcmd => !abortHandle handle xcmd)

/-- The commands with the handle that were on the run queue or submitted have left, and wait for
their notification with status `KDS_ABORT` or `KDS_TIMEOUT`. -/
def Ended (handle : BitVec 32) (xcu after : XrtCu) : Prop :=
  ∀ xcmd ∈ xcu.rq ++ xcu.core.submitted, xcmd.execBoHandle = handle →
    xcmd ∉ after.rq ++ after.core.submitted ∧
      (xcmd.withStatus .abort ∈ after.cq ∨ xcmd.withStatus .timeout ∈ after.cq)

structure OnTarget (handle : BitVec 32) (xcu after : XrtCu) : Prop where
  untouched : ¬ Holds handle xcu → Untouched xcu after
  others : OthersKept handle xcu after
  ended : Ended handle xcu after

/-- A relation between the CUs before and after, slot by slot. -/
def OnCus (R : XrtCu → XrtCu → Prop) (xcus after : List (Option XrtCu)) : Prop :=
  List.Forall₂ (Option.Rel R) xcus after

/-! ### Where the broadcast stops -/

def stops (handle : BitVec 32) (xcu : XrtCu) : Bool :=
  !xcu.ctrlNone && (xcu.rq.any (abortHandle handle) || xcu.numSq != 0)

/-- No command with the handle is on the run queue or submitted. -/
def Clear (handle : BitVec 32) (xcu : XrtCu) : Prop :=
  ∀ xcmd ∈ xcu.rq ++ xcu.core.submitted, xcmd.execBoHandle ≠ handle

/-- The CU at which the broadcast stops has the target, or nothing that could be seen to change: it
has no reset, is bad already and has no completed command. A target on the run queue is the only
command with the handle there, and no other one is submitted. -/
structure StopsRight (handle : BitVec 32) (xcu : XrtCu) : Prop where
  target : Holds handle xcu ∨
    (xcu.core.swReset = false ∧ xcu.badState = true ∧ xcu.core.completed = [])
  only : xcu.rq.any (abortHandle handle) = true →
    (xcu.rq.filter (abortHandle handle)).length = 1 ∧
      ∀ xcmd ∈ xcu.core.submitted, xcmd.execBoHandle ≠ handle

def Targeted (handle : BitVec 32) : List (Option XrtCu) → Prop
  | [] => True
  | none :: rest => Targeted handle rest
  | some xcu :: rest =>
    if stops handle xcu then
      StopsRight handle xcu ∧ ∀ other, some other ∈ rest → Clear handle other
    else Clear handle xcu ∧ Targeted handle rest

/-! ### One CU -/

def XrtCu.rqAborted (xcu : XrtCu) (handle : BitVec 32) (xcmd : KdsCommand) : XrtCu :=
  { xcu with
    rq := xcu.rq.eraseP (abortHandle handle)
    cq := xcu.cq ++ [xcmd.withStatus .abort]
    numCq := xcu.numCq + 1
    numRq := xcu.numRq - 1 }

def XrtCu.coreAborted (xcu : XrtCu) (handle : BitVec 32) (reads : Nat → BitVec 32) : XrtCu :=
  getComplete (xrtCuCmdAbort xcu (abortHandle handle) reads).2

section OneCu

variable {handle : BitVec 32} {xcu : XrtCu} {id client : Nat}

theorem abortHandle_iff {xcmd : KdsCommand} :
    abortHandle handle xcmd = true ↔ xcmd.execBoHandle = handle := beq_iff_eq

theorem word_abortRequest : (abortRequest id client handle).word 0 = handle := rfl

theorem xrtCuTryAbort_of_not_stops (reads : Nat → BitVec 32) (passes : stops handle xcu = false) :
    xrtCuTryAbort reads xcu (abortRequest id client handle) = (abortRequest id client handle, xcu) := by
  unfold xrtCuTryAbort
  split_ifs with controlled
  · rfl
  · simp only [stops, controlled, Bool.not_false, Bool.true_and, Bool.or_eq_false_iff,
      bne_eq_false_iff_eq, List.any_eq_false] at passes
    have absent : xcu.rq.find? (abortHandle handle) = none := List.find?_eq_none.mpr passes.1
    simp only [tryAbortCmd, word_abortRequest, absent, passes.2, if_true]

/-- The two ways to stop the broadcast: the first match on the run queue is aborted, or the core is
aborted and all its completed commands move on. -/
theorem xrtCuTryAbort_of_stops (id client : Nat) (reads : Nat → BitVec 32)
    (stop : stops handle xcu = true) :
    (∃ xcmd, xcu.rq.find? (abortHandle handle) = some xcmd ∧
      xrtCuTryAbort reads xcu (abortRequest id client handle) =
        ((abortRequest id client handle).withStatus .completed, xcu.rqAborted handle xcmd)) ∨
    (xcu.rq.find? (abortHandle handle) = none ∧
      ∃ status, status ≠ .new ∧
      xrtCuTryAbort reads xcu (abortRequest id client handle) =
        ((abortRequest id client handle).withStatus status, xcu.coreAborted handle reads)) := by
  simp only [stops, Bool.and_eq_true, Bool.not_eq_true', Bool.or_eq_true, bne_iff_ne] at stop
  obtain ⟨controlled, busy⟩ := stop
  have runs : xrtCuTryAbort reads xcu (abortRequest id client handle) =
      tryAbortCmd reads xcu (abortRequest id client handle) := by
    simp [xrtCuTryAbort, controlled]
  simp only [runs, tryAbortCmd, word_abortRequest]
  cases first : xcu.rq.find? (abortHandle handle) with
  | some xcmd => exact Or.inl ⟨xcmd, rfl, rfl⟩
  | none =>
    have idle : xcu.rq.any (abortHandle handle) ≠ true := fun found => by
      obtain ⟨xcmd, queued, matched⟩ := List.any_eq_true.mp found
      exact List.find?_eq_none.mp first xcmd queued matched
    rw [if_neg (busy.resolve_left idle)]
    have changed (ok : Bool) : (if ok then KdsStatus.completed else .timeout) ≠ .new := by
      cases ok <;> decide
    exact Or.inr ⟨rfl, _, changed _, rfl⟩

theorem filter_eraseP (matching : KdsCommand → Bool) (queue : List KdsCommand) :
    ((queue.eraseP matching).filter fun xcmd => !matching xcmd) =
      queue.filter fun xcmd => !matching xcmd := by
  induction queue with
  | nil => rfl
  | cons xcmd rest ih =>
    cases matched : matching xcmd with
    | true => simp [matched]
    | false => simp [matched, ih]

theorem othersKept_rqAborted {xcmd : KdsCommand}
    (first : xcu.rq.find? (abortHandle handle) = some xcmd) :
    OthersKept handle xcu (xcu.rqAborted handle xcmd) := by
  have found : abortHandle handle xcmd = true := List.find?_some first
  have matched : abortHandle handle (xcmd.withStatus .abort) = true := found
  refine List.Perm.of_eq ?_
  simp only [XrtCu.commands, XrtCu.rqAborted, List.filter_append, filter_eraseP,
    List.filter_cons, matched, Bool.not_true, Bool.false_eq_true, if_false, List.filter_nil,
    List.append_nil]

theorem filter_eraseP_self {matching : KdsCommand → Bool} {queue : List KdsCommand}
    {xcmd : KdsCommand} (first : queue.find? matching = some xcmd) :
    queue.filter matching = xcmd :: (queue.eraseP matching).filter matching := by
  obtain ⟨matched, before, after, rfl, skipped⟩ := List.find?_eq_some_iff_append.mp first
  have none : before.filter matching = [] := List.filter_eq_nil_iff.mpr (by simpa using skipped)
  rw [List.eraseP_append_right _ (by simpa using skipped), List.eraseP_cons_of_pos matched]
  simp [none, matched]

theorem ended_rqAborted_iff {xcmd : KdsCommand}
    (first : xcu.rq.find? (abortHandle handle) = some xcmd) :
    Ended handle xcu (xcu.rqAborted handle xcmd) ↔
      (xcu.rq.filter (abortHandle handle)).length = 1 ∧
        ∀ other ∈ xcu.core.submitted, other.execBoHandle ≠ handle := by
  have split := filter_eraseP_self first
  constructor
  · intro ended
    constructor
    · -- a second match would still be on the run queue
      rw [split, List.length_cons, Nat.succ_inj, List.length_eq_zero_iff, List.filter_eq_nil_iff]
      intro other left matched
      have queued := List.mem_append_left xcu.core.submitted (List.mem_of_mem_eraseP left)
      exact (ended other queued (abortHandle_iff.mp matched)).1 (List.mem_append_left _ left)
    · intro other submitted same
      have queued := List.mem_append_right xcu.rq submitted
      exact (ended other queued same).1 (List.mem_append_right _ submitted)
  · rintro ⟨one, none⟩ other here same
    have queued : other ∈ xcu.rq := by
      rcases List.mem_append.mp here with queued | submitted
      · exact queued
      · exact absurd same (none other submitted)
    rw [split, List.length_cons, Nat.succ_inj, List.length_eq_zero_iff] at one
    have last : other = xcmd := by
      have matching := List.mem_filter.mpr ⟨queued, abortHandle_iff.mpr same⟩
      rw [split, one] at matching
      exact List.mem_singleton.mp matching
    refine ⟨fun left => ?_, Or.inl (List.mem_append_right _ (by rw [last]; exact List.mem_singleton_self _))⟩
    rcases List.mem_append.mp left with rest | submitted
    · exact List.filter_eq_nil_iff.mp one other rest (abortHandle_iff.mpr same)
    · exact none other submitted same

section CoreAborted

variable (reads : Nat → BitVec 32)

theorem coreAborted_rq : (xcu.coreAborted handle reads).rq = xcu.rq := by
  rw [XrtCu.coreAborted, getComplete_eq]
  rfl

theorem coreAborted_pq : (xcu.coreAborted handle reads).pq = xcu.pq := by
  rw [XrtCu.coreAborted, getComplete_eq]
  rfl

theorem coreAborted_submitted : (xcu.coreAborted handle reads).core.submitted =
    xcu.core.submitted.filter fun xcmd => !abortHandle handle xcmd := by
  rw [XrtCu.coreAborted, getComplete_eq]
  rfl

theorem coreAborted_completed : (xcu.coreAborted handle reads).core.completed = [] := by
  rw [XrtCu.coreAborted, getComplete_eq]

theorem coreAborted_cq : (xcu.coreAborted handle reads).cq = xcu.cq ++ (xcu.core.completed ++
    (xcu.core.submitted.filter (abortHandle handle)).map (·.withStatus .timeout)) := by
  rw [XrtCu.coreAborted, getComplete_eq]
  rfl

theorem coreAborted_badState : (xcu.coreAborted handle reads).badState =
    (xcu.badState || !(abortReset xcu.core reads).1) := by
  rw [XrtCu.coreAborted, getComplete_eq]
  rfl

theorem coreAborted_credits : (xcu.coreAborted handle reads).core.credits =
    (abortReset xcu.core reads).2.credits := by
  rw [XrtCu.coreAborted, getComplete_eq]
  rfl

theorem coreAborted_writes : (xcu.coreAborted handle reads).core.writes =
    (abortReset xcu.core reads).2.writes := by
  rw [XrtCu.coreAborted, getComplete_eq]
  rfl

theorem othersKept_coreAborted : OthersKept handle xcu (xcu.coreAborted handle reads) := by
  have timedOut : ((xcu.core.submitted.filter (abortHandle handle)).map
      (·.withStatus .timeout)).filter (fun xcmd => !abortHandle handle xcmd) = [] := by
    refine List.filter_eq_nil_iff.mpr fun xcmd here => ?_
    obtain ⟨old, matching, rfl⟩ := List.mem_map.mp here
    have matched := (List.mem_filter.mp matching).2
    simpa [abortHandle, KdsCommand.withStatus] using matched
  unfold OthersKept XrtCu.commands
  simp only [coreAborted_pq, coreAborted_rq, coreAborted_submitted, coreAborted_completed,
    coreAborted_cq, List.filter_append, List.filter_filter, Bool.and_self, timedOut,
    List.append_nil, List.append_assoc]
  -- the completed commands are behind the completed queue now
  exact ((List.perm_append_comm.append_left _).append_left _).append_left _

theorem ended_coreAborted (absent : xcu.rq.find? (abortHandle handle) = none) :
    Ended handle xcu (xcu.coreAborted handle reads) := by
  have queue : ∀ xcmd ∈ xcu.rq, xcmd.execBoHandle ≠ handle := fun xcmd queued same =>
    List.find?_eq_none.mp absent xcmd queued (abortHandle_iff.mpr same)
  intro xcmd here same
  have matched : abortHandle handle xcmd = true := abortHandle_iff.mpr same
  constructor
  · rw [coreAborted_rq, coreAborted_submitted, List.mem_append, List.mem_filter]
    rintro (queued | ⟨-, unmatched⟩)
    · exact queue xcmd queued same
    · simp [matched] at unmatched
  · have submitted : xcmd ∈ xcu.core.submitted := by
      rcases List.mem_append.mp here with queued | submitted
      · exact absurd same (queue xcmd queued)
      · exact submitted
    rw [coreAborted_cq]
    refine Or.inr (List.mem_append_right _ (List.mem_append_right _ ?_))
    exact List.mem_map_of_mem (List.mem_filter.mpr ⟨submitted, matched⟩)

/-- A CU that is aborted without a match shows no trace of it only if there was none to make. -/
theorem untouched_coreAborted_iff (other : ¬ Holds handle xcu) :
    Untouched xcu (xcu.coreAborted handle reads) ↔
      xcu.core.swReset = false ∧ xcu.badState = true ∧ xcu.core.completed = [] := by
  constructor
  · intro same
    have reset : xcu.core.swReset = false := by
      by_contra resets
      have resets : xcu.core.swReset = true := by simpa using resets
      have writes := same.writes
      rw [coreAborted_writes] at writes
      have more : (abortReset xcu.core reads).2.writes =
          xcu.core.writes ++ [⟨CTRL, CU_AP_SW_RESET⟩] := by
        simp only [abortReset, resets, if_true]
        split <;> rfl
      rw [more] at writes
      simp at writes
    have failed : (abortReset xcu.core reads).1 = false := by simp [abortReset, reset]
    refine ⟨reset, ?_, ?_⟩
    · have bad := same.badState
      rw [coreAborted_badState, failed, Bool.not_false, Bool.or_true] at bad
      exact bad.symm
    · have completed := same.completed
      rw [coreAborted_completed] at completed
      exact completed.symm
  · rintro ⟨reset, bad, completed⟩
    have unmatched : ∀ xcmd ∈ xcu.core.submitted, abortHandle handle xcmd = false := by
      intro xcmd submitted
      by_contra matched
      refine other ⟨xcmd, ?_, abortHandle_iff.mp (by simpa using matched)⟩
      simp [XrtCu.commands, submitted]
    have still : abortReset xcu.core reads = (false, xcu.core) := by simp [abortReset, reset]
    exact
      { pq := coreAborted_pq reads
        rq := coreAborted_rq reads
        submitted := by
          rw [coreAborted_submitted, List.filter_eq_self]
          exact fun xcmd submitted => by simp [unmatched xcmd submitted]
        completed := by rw [coreAborted_completed, completed]
        cq := by
          have none : xcu.core.submitted.filter (abortHandle handle) = [] :=
            List.filter_eq_nil_iff.mpr fun xcmd submitted => by simp [unmatched xcmd submitted]
          rw [coreAborted_cq, completed, none]
          simp
        credits := by rw [coreAborted_credits, still]
        badState := by rw [coreAborted_badState, bad, Bool.true_or]
        writes := by rw [coreAborted_writes, still] }

end CoreAborted

theorem onTarget_stop_iff (reads : Nat → BitVec 32) (stop : stops handle xcu = true) :
    OnTarget handle xcu (xrtCuTryAbort reads xcu (abortRequest id client handle)).2 ↔
      StopsRight handle xcu := by
  rcases xrtCuTryAbort_of_stops id client reads stop with
    ⟨xcmd, first, made⟩ | ⟨absent, status, -, made⟩
  · have queued := List.mem_of_find?_eq_some first
    have matched := List.find?_some first
    have holds : Holds handle xcu :=
      ⟨xcmd, by simp [XrtCu.commands, queued], abortHandle_iff.mp matched⟩
    have found : xcu.rq.any (abortHandle handle) = true := List.any_eq_true.mpr ⟨xcmd, queued, matched⟩
    rw [made]
    constructor
    · intro right
      exact ⟨Or.inl holds, fun _ => (ended_rqAborted_iff first).mp right.ended⟩
    · intro right
      exact ⟨fun other => absurd holds other, othersKept_rqAborted first,
        (ended_rqAborted_iff first).mpr (right.only found)⟩
  · have idle : ¬ xcu.rq.any (abortHandle handle) = true := fun found => by
      obtain ⟨xcmd, queued, matched⟩ := List.any_eq_true.mp found
      exact List.find?_eq_none.mp absent xcmd queued matched
    rw [made]
    constructor
    · intro right
      refine ⟨?_, fun found => absurd found idle⟩
      by_cases holds : Holds handle xcu
      · exact Or.inl holds
      · exact Or.inr ((untouched_coreAborted_iff reads holds).mp (right.untouched holds))
    · intro right
      refine ⟨fun other => ?_, othersKept_coreAborted reads, ended_coreAborted reads absent⟩
      exact (untouched_coreAborted_iff reads other).mpr (right.target.resolve_left other)

theorem onTarget_self_iff : OnTarget handle xcu xcu ↔ Clear handle xcu := by
  constructor
  · intro right xcmd here same
    exact (right.ended xcmd here same).1 here
  · intro clear
    exact ⟨fun _ => Untouched.refl xcu, List.Perm.refl _, fun xcmd here same =>
      absurd same (clear xcmd here)⟩

end OneCu

/-! ### The broadcast -/

theorem onCus_self_iff {handle : BitVec 32} (xcus : List (Option XrtCu)) :
    OnCus (OnTarget handle) xcus xcus ↔ ∀ xcu, some xcu ∈ xcus → Clear handle xcu := by
  unfold OnCus
  rw [List.forall₂_same]
  constructor
  · intro each xcu here
    cases each (some xcu) here with
    | some right => exact onTarget_self_iff.mp right
  · rintro clear (_ | xcu) here
    · exact .none
    · exact .some (onTarget_self_iff.mpr (clear xcu here))

theorem abortLoop_targeted_iff (reads : Nat → Nat → BitVec 32) (i : Nat)
    (xcus : List (Option XrtCu)) (id client : Nat) (handle : BitVec 32) :
    OnCus (OnTarget handle) xcus (abortLoop reads i xcus (abortRequest id client handle)).2 ↔
      Targeted handle xcus := by
  induction xcus generalizing i with
  | nil => exact iff_of_true .nil trivial
  | cons slot rest ih =>
    cases slot with
    | none =>
      rw [Targeted, ← ih (i + 1), abortLoop, OnCus, List.forall₂_cons]
      exact and_iff_right .none
    | some xcu =>
      rw [Targeted]
      cases stop : stops handle xcu with
      | false =>
        -- the request goes on to the next CU
        rw [if_neg Bool.false_ne_true, ← ih (i + 1)]
        simp only [abortLoop, xrtCuTryAbort_of_not_stops (reads i) stop]
        rw [if_pos (show (abortRequest id client handle).status = .new from rfl), OnCus,
          List.forall₂_cons, Option.rel_some_some, onTarget_self_iff]
        rfl
      | true =>
        have changed : (xrtCuTryAbort (reads i) xcu (abortRequest id client handle)).1.status ≠ .new := by
          rcases xrtCuTryAbort_of_stops id client (reads i) stop with
            ⟨xcmd, -, made⟩ | ⟨-, status, fresh, made⟩
          · rw [made]
            exact fun same => by cases same
          · rw [made]
            exact fresh
        simp only [abortLoop, if_neg changed]
        rw [OnCus, List.forall₂_cons, Option.rel_some_some, onTarget_stop_iff (reads i) stop]
        exact and_congr_right fun _ => onCus_self_iff rest

/-- **An abort request touches its target and nothing else exactly if the broadcast stops at the
right CU:** no CU other than the one where it stops has a command with the handle on its run queue
or submitted, and that CU has the target, on its run queue only once. -/
theorem kdsCuAbortCmd_onTarget_iff (reads : Nat → Nat → BitVec 32) (mgmt : KdsCuMgmt)
    (id client : Nat) (handle : BitVec 32) :
    OnCus (OnTarget handle) mgmt.xcus
        (kdsCuAbortCmd reads mgmt (abortRequest id client handle)).xcus ↔
      Targeted handle mgmt.xcus :=
  abortLoop_targeted_iff reads 0 mgmt.xcus id client handle

def cuWith (handle : BitVec 32) (events : List Event) : Option XrtCu :=
  Lib.run (step false) (initial false false false)
    (.submit ⟨0, 1, .new, .start, handle, .regmap, [], 0⟩ :: events)

/-- The first CU runs command 7 and the second one has command 5 on its run queue. The abort of
command 5 stops at the first CU and marks it and the device bad; command 5 stays where it is. -/
theorem abort_hits_other_cu :
    ∃ busy target,
      cuWith 7 [.processPq, .processRq false] = some busy ∧ cuWith 5 [.processPq] = some target ∧
      ¬ Holds 5 busy ∧ busy.badState = false ∧
      ∃ hit, kdsCuAbortCmd (fun _ _ => 0) ⟨[some busy, some target], false, []⟩ (abortRequest 9 1 5) =
          ⟨[some hit, some target], true, [.notifyHost 9 .timeout, .free 9]⟩ ∧
        hit.badState = true ∧ target.rq.map (·.execBoHandle) = [5] := by
  refine ⟨_, _, rfl, rfl, ?_, rfl, _, rfl, rfl, rfl⟩
  rintro ⟨xcmd, here, same⟩
  rw [List.mem_singleton.mp here] at same
  cases same

end Xrt.Cu
