import Xrt.Kds.Dispatch
import Xrt.Zocl.CuXgq

/-!
# The memory of a start command

`zcu_xgq_cmd_start_cuidx` makes a command structure for KDS from the buffer of a start command, with
a bit for the CU in `cu_mask`. KDS refuses the command or gives it to the CU, and in either case
`zcu_xgq_cmd_notify` answers it and frees the buffer. What matters here are the accesses to the
buffer and to `cu_mask`, from the first function to the last one.

A CU that KDS has chosen has its index in the command structure, and then the notification looks at
the domain in the buffer behind `kfree`.
-/
namespace Xrt.Kds.Dispatch

open Lib

variable (call : Dispatch)

/-- `xcmd->cu_idx` after `acquire_cu_idx`: it is written before the last look is evaluated. -/
def storedCuIdx (t : Nat) (usage : Nat → BitVec 64) (cuIdx : Int) : Int :=
  match call.selectCu t usage with
  | .error _ => cuIdx
  | .ok index =>
    match call.kdsTestRefcnt (call.checkTime t) index with
    | none => cuIdx
    | some _ => index

/-- The loop of `kds_cu_dispatch`, with the index in the command structure. -/
def dispatchIdx : (attempts t : Nat) → Counters → Int → Option (Int × Int)
  | 0, _, _, _ => none
  | attempts + 1, t, s, cuIdx =>
    let cuIdx := call.storedCuIdx t s.usage cuIdx
    match call.acquireCuIdx t s with
    | (.error err, s) =>
      if err = -EAGAIN then dispatchIdx attempts (call.checkTime t + 1) s cuIdx else some (err, cuIdx)
    | (.ok _, _) => some (0, cuIdx)

variable {call} {attempts t cu : Nat} {s : Counters} {cuIdx ret idx : Int}

theorem storedCuIdx_nonneg {usage : Nat → BitVec 64} (chosen : 0 ≤ cuIdx) :
    0 ≤ call.storedCuIdx t usage cuIdx := by
  unfold storedCuIdx
  split
  · exact chosen
  · split
    · exact chosen
    · exact Int.natCast_nonneg _

theorem dispatchIdx_nonneg (chosen : 0 ≤ call.storedCuIdx t s.usage cuIdx)
    (ended : call.dispatchIdx attempts t s cuIdx = some (ret, idx)) : 0 ≤ idx := by
  -- over the attempts; a later one leaves the index or writes another one
  induction attempts generalizing t s cuIdx with
  | zero => cases ended
  | succ attempts ih =>
    rw [dispatchIdx] at ended
    split at ended
    · split_ifs at ended
      · exact ih (storedCuIdx_nonneg chosen) ended
      · cases ended
        exact chosen
    · cases ended
      exact chosen

theorem refcnt_of_selectCu {usage : Nat → BitVec 64} (selected : call.selectCu t usage = .ok cu) :
    call.refcnt = true := by
  by_contra missing
  have refused : ∀ t cu, call.kdsTestRefcnt t cu = none := fun t cu => if_neg missing
  unfold selectCu at selected
  cases marked : call.marked with
  | nil => simp [marked, validCus] at selected
  | cons first later => simp [marked, validCus, refused] at selected

/-- The command leaves KDS with an index in its structure if the first attempt chooses a CU. -/
theorem dispatchIdx_chosen_iff (unset : cuIdx < 0)
    (ended : call.dispatchIdx attempts t s cuIdx = some (ret, idx)) :
    0 ≤ idx ↔ ∃ cu, call.selectCu t s.usage = .ok cu := by
  cases attempts with
  | zero => cases ended
  | succ attempts =>
    cases selected : call.selectCu t s.usage with
    | error err =>
      have other := (call.selectCu_error selected).2
      simp only [dispatchIdx, acquireCuIdx, storedCuIdx, selected, if_neg other] at ended
      cases ended
      exact iff_of_false (not_le.mpr unset) (by simp)
    | ok cu =>
      refine iff_of_true ?_ ⟨cu, rfl⟩
      have found : call.kdsTestRefcnt (call.checkTime t) cu = some (call.isOpen (call.checkTime t) cu) :=
        if_pos (refcnt_of_selectCu selected)
      have stored : call.storedCuIdx t s.usage cuIdx = cu := by
        simp only [storedCuIdx, selected, found]
      exact dispatchIdx_nonneg (stored ▸ Int.natCast_nonneg cu) ended

end Xrt.Kds.Dispatch

namespace Xrt.Zocl

open Lib Kds

/-! ### The accesses -/

inductive Access
  | maskWrite (word : Nat)
  | cmdRead
  | cmdWrite
  | cmdFree
deriving DecidableEq, Repr

/-- Whether the buffer has been freed, after an access that is allowed. -/
def access (freed : Bool) : Access → Option Bool
  | .maskWrite word => if word < 4 then some freed else none
  | .cmdRead | .cmdWrite => if freed then none else some freed
  | .cmdFree => if freed then none else some true

/-- Every write to `cu_mask` is inside of it, and no access to the buffer follows on its end. -/
def Safe (accesses : List Access) : Prop := (run access false accesses).isSome

instance : DecidablePred Safe := fun _ => inferInstanceAs (Decidable (Option.isSome _ = true))

/-! ### From the start to the notification -/

structure ZoclCuXgq where
  /-- `ZCU_XGQ_FAST_PATH`, which is defined as `false` -/
  fastPath : Bool
  zxcCuDomain : BitVec 32
  zxcCuIdx : BitVec 32

/-- The fields of `struct kds_command` that are written here. -/
structure StartXcmd where
  cuIdx : Int
  /-- `KDS_SCU` -/
  soft : Bool
  cuMask : List (BitVec 32)
  numMask : Nat

def NO_INDEX : Int := -1

def ZoclCuXgq.index (xgq : ZoclCuXgq) (cmd : Cmd) : Nat :=
  if xgq.fastPath then xgq.zxcCuIdx.toNat else cmd.cuIdx

def ZoclCuXgq.domain (xgq : ZoclCuXgq) (cmd : Cmd) : BitVec 4 :=
  if xgq.fastPath then xgq.zxcCuDomain.setWidth 4 else cmd.cuDomain

/-- The part of `zcu_xgq_cmd_start_cuidx` between `kds_alloc_command` and `kds_add_command`. -/
def zcuXgqCmdStartCuidx (xgq : ZoclCuXgq) (cmd : Cmd) : StartXcmd × List Access :=
  let maskIdx := xgq.index cmd / 32
  let bitIdx := xgq.index cmd % 32
  let xcmd :=
    { cuIdx := NO_INDEX
      soft := xgq.domain cmd ≠ 0
      cuMask := (List.replicate 4 0).set maskIdx (1 <<< bitIdx)
      numMask := if maskIdx < 4 then maskIdx + 1 else 0 }
  -- the domain is written into the buffer on the fast path, and read from there
  (xcmd, (if xgq.fastPath then [.cmdWrite] else [.cmdRead, .cmdRead]) ++
    [.cmdRead, .maskWrite maskIdx])

def completeAccesses (fastPath : Bool) (ret : BitVec 32) : List Access :=
  (if !(ret == 0 && fastPath) then [.cmdRead] else []) ++ [.cmdFree]

/-- `zcu_xgq_cmd_notify`: the domain decides which counter of the client is incremented. -/
def notifyAccesses (fastPath : Bool) (rcode : BitVec 32) (cuIdx : Int) : List Access :=
  completeAccesses fastPath rcode ++ if cuIdx ≥ 0 then [.cmdRead] else []

/-- The CUs of its domain for the command. -/
def StartXcmd.call (xcmd : StartXcmd) (kds : Bool → Dispatch) : Dispatch :=
  { kds xcmd.soft with cuMask := xcmd.cuMask.take xcmd.numMask, hwCtx := 0 }

/-- The life of a start command, where a CU that got the command ends it with `rcode`. There is no
end if KDS still looks for a CU after so many attempts. -/
def startAccesses (xgq : ZoclCuXgq) (kds : Bool → Dispatch) (counters : Bool → Counters) (cmd : Cmd)
    (allocated : Bool) (rcode : BitVec 32) (attempts : Nat) : Option (List Access) :=
  if !allocated then some (completeAccesses xgq.fastPath (errorCode ENOMEM))
  else
    let (xcmd, accesses) := zcuXgqCmdStartCuidx xgq cmd
    match (xcmd.call kds).dispatchIdx attempts 0 (counters xcmd.soft) xcmd.cuIdx with
    | none => none
    | some (ret, cuIdx) =>
      some (accesses ++ notifyAccesses xgq.fastPath (if ret = 0 then rcode else 0) cuIdx)

/-- KDS finds a CU for the command. -/
def Chosen (xgq : ZoclCuXgq) (kds : Bool → Dispatch) (counters : Bool → Counters) (cmd : Cmd) : Prop :=
  ∃ cu, ((zcuXgqCmdStartCuidx xgq cmd).1.call kds).selectCu 0
    (counters (zcuXgqCmdStartCuidx xgq cmd).1.soft).usage = .ok cu

variable {xgq : ZoclCuXgq} {cmd : Cmd}

theorem run_start (xgq : ZoclCuXgq) (cmd : Cmd) :
    run access false (zcuXgqCmdStartCuidx xgq cmd).2
      = if xgq.index cmd / 32 < 4 then some false else none := by
  unfold zcuXgqCmdStartCuidx
  cases xgq.fastPath <;> simp [run, access]

theorem run_complete (fastPath : Bool) (ret : BitVec 32) :
    run access false (completeAccesses fastPath ret) = some true := by
  unfold completeAccesses
  split_ifs <;> rfl

theorem run_notify (fastPath : Bool) (rcode : BitVec 32) (cuIdx : Int) :
    run access false (notifyAccesses fastPath rcode cuIdx) = if cuIdx ≥ 0 then none else some true := by
  rw [notifyAccesses, run_append, run_complete]
  split_ifs <;> rfl

theorem start_safe_iff (xgq : ZoclCuXgq) (kds : Bool → Dispatch) (counters : Bool → Counters)
    (cmd : Cmd) (allocated : Bool) (rcode : BitVec 32) (attempts : Nat) (accesses : List Access)
    (ended : startAccesses xgq kds counters cmd allocated rcode attempts = some accesses) :
    Safe accesses ↔ allocated = false ∨ xgq.index cmd < 128 ∧ ¬ Chosen xgq kds counters cmd := by
  cases allocated with
  | false =>
    cases ended
    refine iff_of_true ?_ (.inl rfl)
    rw [Safe, run_complete]
    rfl
  | true =>
    simp only [startAccesses, Bool.not_true, Bool.false_eq_true, if_false] at ended
    split at ended
    · cases ended
    next ret cuIdx dispatched =>
      cases ended
      have chosen : 0 ≤ cuIdx ↔ Chosen xgq kds counters cmd :=
        Dispatch.dispatchIdx_chosen_iff (show NO_INDEX < 0 by decide) dispatched
      have inside : xgq.index cmd / 32 < 4 ↔ xgq.index cmd < 128 := by omega
      rw [Safe, run_append, run_start, ← inside, ← chosen]
      by_cases word : xgq.index cmd / 32 < 4
      · simp only [if_pos word, Option.bind_some, run_notify]
        split_ifs with set
        · exact iff_of_false (by simp) (by simpa using fun _ => set)
        · exact iff_of_true rfl (.inr ⟨word, set⟩)
      · rw [if_neg word]
        exact iff_of_false (by simp) (by simpa using fun inside => absurd inside word)

/-- A domain with one CU, and whether the client has opened it. -/
def oneCu (open_ : Bool) : Dispatch where
  cuMask := []
  hwCtx := 0
  numCus := 1
  ctrlNone := fun _ => false
  isUcu := fun _ => false
  refcnt := true
  isOpen := fun _ cu => open_ && cu == 0

def unused : Counters := ⟨fun _ => 0, fun _ => none, []⟩

def slowQueue : ZoclCuXgq := ⟨false, 0, 0⟩

/-- The start command of a CU. -/
def startCu (cu : BitVec 12) : Cmd := ⟨0x80000100, cu.setWidth 32 <<< 16, []⟩

theorem closed_cu_refused_safely :
    startAccesses slowQueue (fun _ => oneCu false) (fun _ => unused) (startCu 0) true 0 1
        = some [.cmdRead, .cmdRead, .cmdRead, .maskWrite 0, .cmdRead, .cmdFree]
      ∧ Safe [.cmdRead, .cmdRead, .cmdRead, .maskWrite 0, .cmdRead, .cmdFree] := by
  refine ⟨rfl, (start_safe_iff slowQueue (fun _ => oneCu false) (fun _ => unused) (startCu 0) true 0 1
    _ rfl).mpr (.inr ⟨by decide, ?_⟩)⟩
  rintro ⟨cu, selected⟩
  cases selected

/-- An ordinary start command is read behind `kfree`, and one of CU 128 is written behind `cu_mask`. -/
theorem start_reads_freed :
    startAccesses slowQueue (fun _ => oneCu true) (fun _ => unused) (startCu 0) true 0 1
        = some [.cmdRead, .cmdRead, .cmdRead, .maskWrite 0, .cmdRead, .cmdFree, .cmdRead]
      ∧ ¬ Safe [.cmdRead, .cmdRead, .cmdRead, .maskWrite 0, .cmdRead, .cmdFree, .cmdRead]
      ∧ startAccesses slowQueue (fun _ => oneCu true) (fun _ => unused) (startCu 128) true 0 1
        = some [.cmdRead, .cmdRead, .cmdRead, .maskWrite 4, .cmdRead, .cmdFree]
      ∧ ¬ Safe [.cmdRead, .cmdRead, .cmdRead, .maskWrite 4, .cmdRead, .cmdFree] :=
  ⟨rfl, by decide, rfl, by decide⟩

end Xrt.Zocl
