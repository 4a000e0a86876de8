import Mathlib.Data.BitVec
import Mathlib.Logic.Function.Basic
import Xrt.Errno
import Xrt.Lib.Run

/-!
# Choosing a CU for a command

`kds_cu_dispatch` with `acquire_cu_idx` and `cu_mask_to_cu_idx`, for the CUs of one domain. While a
command is dispatched, other threads of the client may close CUs: each look at the reference counts
is at a time of its own, and `isOpen t cu` tells whether the count of the CU is positive at time `t`.
A mask has at most four words, so that `int8_t` holds every index.
-/
namespace Xrt.Kds

open Lib

/-! ### The mask -/

/-- The loop over the bits of one word, at bit `j`; it ends with the last bit that is set. -/
def maskLoop (word : Nat) : (rounds j : Nat) → BitVec 32 → List Nat
  | 0, _, _ => []
  | rounds + 1, j, mask =>
    if mask = 0 then []
    else if mask &&& 1 = 0 then maskLoop word rounds (j + 1) (mask >>> 1)
    else (word * 32 + j) :: maskLoop word rounds (j + 1) (mask >>> 1)

/-- The loop over the words, at word `i`. -/
def maskWords : (i : Nat) → List (BitVec 32) → List Nat
  | _, [] => []
  | i, mask :: words => maskLoop i 32 0 mask ++ maskWords (i + 1) words

def cuMaskToCuIdx (cuMask : List (BitVec 32)) : List Nat := maskWords 0 cuMask

/-! ### The counters -/

/-- What a dispatch works on. `submitted` holds `s_cnt`, or `scu_s_cnt` for a soft kernel, of the
hardware contexts that the client has; `queued` are the CUs that `xrt_cu_submit` was called for. -/
structure Counters where
  usage : Nat → BitVec 64
  submitted : Nat → Option (Nat → BitVec 64)
  queued : List Nat

variable (s : Counters)

/-- `client_stat_inc` and `client_stat_dec`: nothing happens if the client has no such hardware
context. -/
def Counters.addSubmitted (hwCtx cu : Nat) (count : BitVec 64) : Counters :=
  let stats := (s.submitted hwCtx).map fun stats => Function.update stats cu (stats cu + count)
  { s with submitted := Function.update s.submitted hwCtx stats }

def Counters.incUsage (cu : Nat) : Counters :=
  { s with usage := Function.update s.usage cu (s.usage cu + 1) }

/-- A command with the CUs of its domain. -/
structure Dispatch where
  cuMask : List (BitVec 32)
  hwCtx : Nat
  numCus : Nat
  /-- The protocol of the CU is `CTRL_NONE`. -/
  ctrlNone : Nat → Bool
  isUcu : Nat → Bool
  /-- Whether the client has reference counts at all. -/
  refcnt : Bool
  isOpen : Nat → Nat → Bool

namespace Dispatch

variable (call : Dispatch)

def marked : List Nat := cuMaskToCuIdx call.cuMask

/-- `none` is an error. -/
def kdsTestRefcnt (t cu : Nat) : Option Bool := if call.refcnt then some (call.isOpen t cu) else none

/-- The CUs of the mask that are in the context, the first one being looked up at time `t`. -/
def validCus : (t : Nat) → List Nat → Option (List Nat)
  | _, [] => some []
  | t, cu :: cus =>
    match call.kdsTestRefcnt t cu with
    | none => none
    | some cuSet => (validCus (t + 1) cus).map fun valid => if cuSet then cu :: valid else valid

/-- The search for the minimum. -/
def minUsage (usage : Nat → BitVec 64) : (index : Nat) → List Nat → Nat
  | index, [] => index
  | index, cu :: cus => minUsage usage (if usage cu < usage index then cu else index) cus

/-- `acquire_cu_idx` up to the check of the CU; an error is returned with the counters unchanged. -/
def selectCu (t : Nat) (usage : Nat → BitVec 64) : Except Int Nat :=
  if call.marked.length > call.numCus then .error (-EINVAL)
  else match call.validCus t call.marked with
    | none => .error (-EINVAL)
    | some [] => .error (-EINVAL)
    | some (cu :: cus) =>
      let index := minUsage usage cu cus
      if call.ctrlNone index then .error (-EINVAL)
      else if call.isUcu index then .error (-EBUSY)
      else .ok index

/-- The time of the look that makes sure that the CU is still open. -/
def checkTime (t : Nat) : Nat := t + call.marked.length

/-- A `CU` index, or an error. -/
def acquireCuIdx (t : Nat) (s : Counters) : Except Int Nat × Counters :=
  match call.selectCu t s.usage with
  | .error err => (.error err, s)
  | .ok index =>
    let s := (s.incUsage index).addSubmitted call.hwCtx index 1
    match call.kdsTestRefcnt (call.checkTime t) index with
    | none => (.error (-EINVAL), s)
    | some true => (.ok index, s)
    -- the usage is not taken back
    | some false => (.error (-EAGAIN), s.addSubmitted call.hwCtx index (-1))

/-- The loop of `kds_cu_dispatch`; `none` if it goes on after so many attempts. -/
def dispatchLoop : (attempts t : Nat) → Counters → Option (Int × Counters)
  | 0, _, _ => none
  | attempts + 1, t, s =>
    match call.acquireCuIdx t s with
    | (.error err, s) =>
      if err = -EAGAIN then dispatchLoop attempts (call.checkTime t + 1) s else some (err, s)
    | (.ok index, s) => some (0, { s with queued := s.queued ++ [index] })

/-- An attempt is repeated when a marked CU has been closed, so there are at most that many. -/
def kdsCuDispatch : Option (Int × Counters) :=
  call.dispatchLoop (call.marked.length + 1) 0 s

/-- Other threads only close CUs. -/
def OnlyCloses : Prop := ∀ cu t t', t ≤ t' → call.isOpen t' cu = true → call.isOpen t cu = true

/-- The CU that a look at the counts from time `t` on finds best. -/
def Chosen (t cu : Nat) : Prop :=
  ∃ valid, call.validCus t call.marked = some valid ∧ cu ∈ valid
    ∧ ∀ other ∈ valid, s.usage cu < s.usage other ∨ s.usage cu = s.usage other ∧ cu ≤ other

/-- What a dispatch should do. -/
def Right (ret : Int) (s' : Counters) : Prop :=
  (ret = 0 → ∃ cu, s'.queued = s.queued ++ [cu]
      ∧ cu / 32 < call.cuMask.length ∧ (call.cuMask.getD (cu / 32) 0).getLsbD (cu % 32) = true
      ∧ (∃ t, call.Chosen s t cu) ∧ call.ctrlNone cu = false ∧ call.isUcu cu = false
      ∧ s'.usage = Function.update s.usage cu (s.usage cu + 1)
      ∧ ∃ stats, s.submitted call.hwCtx = some stats
        ∧ s'.submitted = Function.update s.submitted call.hwCtx
            (some (Function.update stats cu (stats cu + 1))))
    ∧ (ret ≠ 0 → s'.usage = s.usage ∧ s'.submitted = s.submitted ∧ s'.queued = s.queued)

/-- The CU that is chosen first is closed before the last look at it. -/
def ClosedAfterChoice : Prop :=
  ∃ cu, call.selectCu 0 s.usage = .ok cu ∧ call.kdsTestRefcnt (call.checkTime 0) cu = some false

/-! ### The marked CUs -/

theorem and_one_eq_zero_iff (mask : BitVec 32) : mask &&& 1 = 0 ↔ mask.getLsbD 0 = false := by
  rw [← BitVec.toNat_inj, BitVec.toNat_and]
  change mask.toNat &&& 1 = 0 ↔ mask.toNat.testBit 0 = false
  rw [Nat.and_one_is_mod, Nat.testBit_zero]
  simp

theorem mem_maskLoop (word rounds j cu : Nat) (mask : BitVec 32) :
    cu ∈ maskLoop word rounds j mask
      ↔ ∃ k < rounds, mask.getLsbD k = true ∧ cu = word * 32 + j + k := by
  induction rounds generalizing j mask with
  | zero => simp [maskLoop]
  | succ rounds ih =>
    -- the bits behind the first are the bits of the shifted word
    have later : (∃ k < rounds + 1, mask.getLsbD k = true ∧ cu = word * 32 + j + k)
        ↔ (mask.getLsbD 0 = true ∧ cu = word * 32 + j)
          ∨ ∃ k < rounds, (mask >>> 1).getLsbD k = true ∧ cu = word * 32 + (j + 1) + k := by
      simp only [BitVec.getLsbD_ushiftRight, Nat.exists_lt_succ_left, Nat.add_zero]
      refine or_congr_right (exists_congr fun k => and_congr_right fun _ => ?_)
      rw [Nat.add_comm 1 k, show word * 32 + j + (k + 1) = word * 32 + (j + 1) + k by omega]
    rw [maskLoop, later]
    split_ifs with empty clear
    · simp [empty]
    · rw [ih, (and_one_eq_zero_iff mask).mp clear]
      simp
    · have first : mask.getLsbD 0 = true := by
        rw [and_one_eq_zero_iff] at clear
        simpa using clear
      rw [List.mem_cons, ih, first]
      simp

theorem maskLoop_sorted (word rounds j : Nat) (mask : BitVec 32) :
    (maskLoop word rounds j mask).Pairwise (· < ·) := by
  induction rounds generalizing j mask with
  | zero => exact List.Pairwise.nil
  | succ rounds ih =>
    rw [maskLoop]
    split_ifs
    · exact List.Pairwise.nil
    · exact ih (j + 1) (mask >>> 1)
    · refine List.pairwise_cons.mpr ⟨fun cu later => ?_, ih (j + 1) (mask >>> 1)⟩
      obtain ⟨k, -, -, rfl⟩ := (mem_maskLoop _ _ _ _ _).mp later
      omega

theorem mem_maskWords (i cu : Nat) (cuMask : List (BitVec 32)) :
    cu ∈ maskWords i cuMask
      ↔ ∃ k mask, cuMask[k]? = some mask ∧ cu / 32 = i + k ∧ mask.getLsbD (cu % 32) = true := by
  induction cuMask generalizing i with
  | nil => simp [maskWords]
  | cons mask words ih =>
    rw [maskWords, List.mem_append, mem_maskLoop, ih]
    constructor
    · rintro (⟨k, low, bit, rfl⟩ | ⟨k, mask', found, word, bit⟩)
      · refine ⟨0, mask, rfl, by omega, ?_⟩
        rwa [show (i * 32 + 0 + k) % 32 = k by omega]
      · exact ⟨k + 1, mask', found, by omega, bit⟩
    · rintro ⟨k, mask', found, word, bit⟩
      cases k with
      | zero =>
        cases found
        exact .inl ⟨cu % 32, Nat.mod_lt _ (by decide), bit, by omega⟩
      | succ k => exact .inr ⟨k, mask', found, by omega, bit⟩

/-- The marked CUs are those whose bit is set in the mask. -/
theorem mem_cuMaskToCuIdx (cuMask : List (BitVec 32)) (cu : Nat) :
    cu ∈ cuMaskToCuIdx cuMask
      ↔ cu / 32 < cuMask.length ∧ (cuMask.getD (cu / 32) 0).getLsbD (cu % 32) = true := by
  rw [cuMaskToCuIdx, mem_maskWords]
  constructor
  · rintro ⟨k, mask, found, word, bit⟩
    rw [Nat.zero_add] at word
    obtain ⟨inside, -⟩ := List.getElem?_eq_some_iff.mp found
    rw [word, List.getD_eq_getElem?_getD, found]
    exact ⟨inside, bit⟩
  · rintro ⟨inside, bit⟩
    rw [List.getD_eq_getElem?_getD, List.getElem?_eq_getElem inside] at bit
    exact ⟨cu / 32, _, List.getElem?_eq_getElem inside, (Nat.zero_add _).symm, bit⟩

/-- They come in the order of their indices. -/
theorem maskWords_sorted (i : Nat) (cuMask : List (BitVec 32)) :
    (maskWords i cuMask).Pairwise (· < ·) := by
  induction cuMask generalizing i with
  | nil => exact List.Pairwise.nil
  | cons mask words ih =>
    refine List.pairwise_append.mpr ⟨maskLoop_sorted _ _ _ _, ih (i + 1), fun cu first other later => ?_⟩
    obtain ⟨k, low, -, rfl⟩ := (mem_maskLoop _ _ _ _ _).mp first
    obtain ⟨k', -, -, word, -⟩ := (mem_maskWords _ _ _).mp later
    omega

/-! ### The choice -/

theorem validCus_sublist {t : Nat} {cus valid : List Nat} (found : call.validCus t cus = some valid) :
    valid.Sublist cus := by
  induction cus generalizing t valid with
  | nil =>
    cases found
    exact List.Sublist.slnil
  | cons cu cus ih =>
    rw [validCus] at found
    split at found
    · cases found
    next cuSet _ =>
      obtain ⟨rest, looked, rfl⟩ := Option.map_eq_some_iff.mp found
      cases cuSet with
      | true => exact (ih looked).cons_cons cu
      | false => exact (ih looked).cons cu

variable {call}

/-- A valid CU was open when it was looked up, and at all times before. -/
theorem OnlyCloses.open_of_valid (closes : call.OnlyCloses) {t cu : Nat} {cus valid : List Nat}
    (found : call.validCus t cus = some valid) (member : cu ∈ valid) :
    call.refcnt = true ∧ call.isOpen t cu = true := by
  induction cus generalizing t valid with
  | nil =>
    cases found
    cases member
  | cons first cus ih =>
    rw [validCus, kdsTestRefcnt] at found
    cases refs : call.refcnt with
    | false =>
      rw [refs] at found
      cases found
    | true =>
      rw [refs] at found
      obtain ⟨rest, looked, rfl⟩ := Option.map_eq_some_iff.mp found
      refine ⟨rfl, ?_⟩
      have later : cu ∈ rest → call.isOpen t cu = true := fun among =>
        closes cu t (t + 1) (Nat.le_succ t) (ih looked among).2
      split_ifs at member with isOpen
      · rcases List.mem_cons.mp member with rfl | among
        · exact isOpen
        · exact later among
      · exact later member

theorem OnlyCloses.stays_closed (closes : call.OnlyCloses) {cu t t' : Nat} (le : t ≤ t')
    (closed : call.isOpen t cu = false) : call.isOpen t' cu = false := by
  rw [← Bool.not_eq_true] at closed ⊢
  exact mt (closes cu t t' le) closed

/-- The search keeps the first of the CUs with the least usage. -/
theorem minUsage_spec (usage : Nat → BitVec 64) (index : Nat) (cus : List Nat)
    (sorted : (index :: cus).Pairwise (· < ·)) :
    minUsage usage index cus ∈ index :: cus
      ∧ ∀ other ∈ index :: cus, usage (minUsage usage index cus) < usage other
        ∨ usage (minUsage usage index cus) = usage other ∧ minUsage usage index cus ≤ other := by
  induction cus generalizing index with
  | nil =>
    refine ⟨List.mem_singleton_self index, fun other member => .inr ?_⟩
    rw [List.mem_singleton.mp member]
    exact ⟨rfl, Nat.le_refl _⟩
  | cons cu cus ih =>
    obtain ⟨below, others⟩ := List.pairwise_cons.mp sorted
    obtain ⟨below', others'⟩ := List.pairwise_cons.mp others
    rw [minUsage]
    by_cases less : usage cu < usage index
    · rw [if_pos less]
      obtain ⟨member, least⟩ := ih cu others
      refine ⟨List.mem_cons_of_mem index member, List.forall_mem_cons.mpr ⟨.inl ?_, least⟩⟩
      rcases least cu List.mem_cons_self with lower | ⟨same, -⟩
      · exact BitVec.lt_trans lower less
      · rw [same]
        exact less
    · rw [if_neg less]
      have kept : (index :: cus).Pairwise (· < ·) :=
        List.pairwise_cons.mpr ⟨fun other among => below other (List.mem_cons_of_mem cu among), others'⟩
      obtain ⟨member, least⟩ := ih index kept
      refine ⟨?_, ?_⟩
      · rcases List.mem_cons.mp member with here | among
        · rw [here]
          exact List.mem_cons_self
        · exact List.mem_cons_of_mem index (List.mem_cons_of_mem cu among)
      · obtain ⟨first, rest⟩ := List.forall_mem_cons.mp least
        refine List.forall_mem_cons.mpr ⟨first, List.forall_mem_cons.mpr ⟨?_, rest⟩⟩
        -- the CU that was not taken has at least the usage of the index, and comes later
        have after := below cu List.mem_cons_self
        rw [BitVec.lt_def] at less ⊢
        rcases first with lower | ⟨same, before⟩
        · rw [BitVec.lt_def] at lower
          omega
        · rw [same]
          rcases Nat.lt_or_eq_of_le (Nat.not_lt.mp less) with lower | equal
          · exact .inl lower
          · exact .inr ⟨BitVec.eq_of_toNat_eq equal, before.trans after.le⟩

theorem selectCu_error {t : Nat} {usage : Nat → BitVec 64} {err : Int}
    (failed : call.selectCu t usage = .error err) : err ≠ 0 ∧ err ≠ -EAGAIN := by
  rw [selectCu] at failed
  split at failed
  · cases failed
    decide
  split at failed
  · cases failed
    decide
  · cases failed
    decide
  · simp only at failed
    split_ifs at failed <;> cases failed <;> decide

theorem OnlyCloses.selectCu_ok (closes : call.OnlyCloses) {t cu : Nat} {s : Counters}
    (selected : call.selectCu t s.usage = .ok cu) :
    call.refcnt = true ∧ call.isOpen t cu = true ∧ cu ∈ call.marked ∧ call.Chosen s t cu
      ∧ call.ctrlNone cu = false ∧ call.isUcu cu = false := by
  rw [selectCu] at selected
  split at selected
  · cases selected
  split at selected
  · cases selected
  · cases selected
  next first cus found =>
    simp only at selected
    split_ifs at selected with protocol user
    cases selected
    have sublist := call.validCus_sublist found
    have sorted : (first :: cus).Pairwise (· < ·) :=
      (maskWords_sorted 0 call.cuMask).sublist sublist
    obtain ⟨member, least⟩ := minUsage_spec s.usage first cus sorted
    obtain ⟨refs, isOpen⟩ := closes.open_of_valid found member
    exact ⟨refs, isOpen, sublist.subset member, ⟨first :: cus, found, member, least⟩,
      by simpa using protocol, by simpa using user⟩

/-! ### One attempt -/

theorem addSubmitted_cancel (hwCtx cu : Nat) :
    (s.addSubmitted hwCtx cu 1).addSubmitted hwCtx cu (-1) = s := by
  have restored : ((s.submitted hwCtx).map fun stats => Function.update stats cu (stats cu + 1)).map
      (fun stats => Function.update stats cu (stats cu + -1)) = s.submitted hwCtx := by
    cases s.submitted hwCtx with
    | none => rfl
    | some stats =>
      have back : stats cu + 1 + -1 = stats cu := by
        rw [← BitVec.sub_eq_add_neg, BitVec.add_sub_cancel]
      simp only [Option.map_some, Function.update_self, Function.update_idem, back,
        Function.update_eq_self]
  simp only [Counters.addSubmitted, Function.update_self, Function.update_idem, restored,
    Function.update_eq_self]

/-- An attempt fails with the counters unchanged, or it counts on a CU. If the CU is no longer open,
the attempt is to be repeated and its usage remains. -/
theorem OnlyCloses.acquireCuIdx_cases (closes : call.OnlyCloses) (t : Nat) (s : Counters) :
    (∃ err, (err ≠ 0 ∧ err ≠ -EAGAIN) ∧ call.selectCu t s.usage = .error err
        ∧ call.acquireCuIdx t s = (.error err, s))
      ∨ ∃ cu, call.selectCu t s.usage = .ok cu
        ∧ call.kdsTestRefcnt (call.checkTime t) cu = some (call.isOpen (call.checkTime t) cu)
        ∧ call.acquireCuIdx t s
          = if call.isOpen (call.checkTime t) cu then
              (.ok cu, (s.incUsage cu).addSubmitted call.hwCtx cu 1)
            else (.error (-EAGAIN), s.incUsage cu) := by
  cases selected : call.selectCu t s.usage with
  | error err =>
    refine .inl ⟨err, selectCu_error selected, rfl, ?_⟩
    rw [acquireCuIdx, selected]
  | ok cu =>
    have looked : call.kdsTestRefcnt (call.checkTime t) cu
        = some (call.isOpen (call.checkTime t) cu) := if_pos (closes.selectCu_ok selected).1
    refine .inr ⟨cu, rfl, looked, ?_⟩
    rw [acquireCuIdx, selected]
    simp only [looked]
    cases call.isOpen (call.checkTime t) cu with
    | true => rfl
    | false => exact congrArg _ (addSubmitted_cancel _ _ _)

/-! ### All attempts -/

/-- A CU that is closed when the loop begins is not chosen any more. -/
theorem OnlyCloses.dispatchLoop_frame (closes : call.OnlyCloses) {attempts t : Nat} {s s' : Counters}
    {ret : Int} (returned : call.dispatchLoop attempts t s = some (ret, s')) {gone : Nat}
    (closed : call.isOpen t gone = false) :
    s'.usage gone = s.usage gone ∧ (ret = 0 → ∃ cu ≠ gone, s'.queued = s.queued ++ [cu]) := by
  induction attempts generalizing t s with
  | zero => cases returned
  | succ attempts ih =>
    rw [dispatchLoop] at returned
    rcases closes.acquireCuIdx_cases t s with ⟨err, ⟨nonzero, noRetry⟩, -, acquired⟩ | ⟨cu, selected, -, acquired⟩
    · simp only [acquired, if_neg noRetry] at returned
      cases returned
      exact ⟨rfl, fun zero => absurd zero nonzero⟩
    · have other : gone ≠ cu := fun same => by
        rw [same, (closes.selectCu_ok selected).2.1] at closed
        cases closed
      have kept : (s.incUsage cu).usage gone = s.usage gone := Function.update_of_ne other ..
      split_ifs at acquired with stillOpen
      · rw [acquired] at returned
        cases returned
        exact ⟨kept, fun _ => ⟨cu, other.symm, rfl⟩⟩
      · simp only [acquired, if_true] at returned
        obtain ⟨same, queued⟩ := ih returned (closes.stays_closed (by rw [checkTime]; omega) closed)
        exact ⟨same.trans kept, queued⟩

theorem countP_lt_countP {p q : Nat → Bool} {xs : List Nat} (imp : ∀ x ∈ xs, p x = true → q x = true)
    {x : Nat} (member : x ∈ xs) (old : q x = true) (new : p x = false) : xs.countP p < xs.countP q := by
  induction xs with
  | nil => cases member
  | cons y ys ih =>
    obtain ⟨here, later⟩ := List.forall_mem_cons.mp imp
    have least := List.countP_mono_left later
    rw [List.countP_cons, List.countP_cons]
    rcases List.mem_cons.mp member with rfl | among
    · rw [old, new]
      simpa using Nat.lt_succ_of_le least
    · have less := ih later among
      split_ifs with first second
      · omega
      · exact absurd (here first) second
      · omega
      · omega

/-- With each attempt that is repeated, one marked CU less is open. -/
theorem OnlyCloses.dispatchLoop_isSome (closes : call.OnlyCloses) (attempts t : Nat) (s : Counters)
    (enough : call.marked.countP (call.isOpen t) < attempts) :
    (call.dispatchLoop attempts t s).isSome := by
  induction attempts generalizing t s with
  | zero => exact absurd enough (Nat.not_lt_zero _)
  | succ attempts ih =>
    rw [dispatchLoop]
    rcases closes.acquireCuIdx_cases t s with ⟨err, ⟨-, noRetry⟩, -, acquired⟩ | ⟨cu, selected, -, acquired⟩
    · simp only [acquired, if_neg noRetry]
      rfl
    · split_ifs at acquired with stillOpen
      · rw [acquired]
        rfl
      · simp only [acquired, if_true]
        refine ih _ _ (Nat.lt_of_lt_of_le ?_ (Nat.le_of_lt_succ enough))
        obtain ⟨-, isOpen, marked, -⟩ := closes.selectCu_ok selected
        refine countP_lt_countP (fun other _ => closes other t _ ?_) marked isOpen ?_
        · rw [checkTime]
          omega
        · exact closes.stays_closed (Nat.le_succ _) (by simpa using stillOpen)

theorem OnlyCloses.kdsCuDispatch_isSome (closes : call.OnlyCloses) (s : Counters) :
    (call.kdsCuDispatch s).isSome :=
  closes.dispatchLoop_isSome _ _ _ (Nat.lt_succ_of_le List.countP_le_length)

theorem add_one_ne (count : BitVec 64) : count + 1 ≠ count := by
  bv_omega

/-- A dispatch ends. It does what it should exactly if its first choice is still open at the last look
and, if there is such a choice, the client has the hardware context that the command counts on. -/
theorem kdsCuDispatch_right_iff (call : Dispatch) (closes : call.OnlyCloses) (s : Counters) :
    ∃ ret s', call.kdsCuDispatch s = some (ret, s')
      ∧ (call.Right s ret s'
        ↔ ¬ call.ClosedAfterChoice s
          ∧ ∀ cu, call.selectCu 0 s.usage = .ok cu → (s.submitted call.hwCtx).isSome) := by
  obtain ⟨⟨ret, s'⟩, returned⟩ := Option.isSome_iff_exists.mp (closes.kdsCuDispatch_isSome s)
  refine ⟨ret, s', returned, ?_⟩
  rw [kdsCuDispatch, dispatchLoop] at returned
  rcases closes.acquireCuIdx_cases 0 s with
    ⟨err, ⟨nonzero, noRetry⟩, failed, acquired⟩ | ⟨cu, selected, looked, acquired⟩
  · simp only [acquired, if_neg noRetry] at returned
    cases returned
    refine iff_of_true ⟨fun zero => absurd zero nonzero, fun _ => ⟨rfl, rfl, rfl⟩⟩ ⟨?_, ?_⟩
    · rintro ⟨cu, selected, -⟩
      cases failed.symm.trans selected
    · intro cu selected
      cases failed.symm.trans selected
  split_ifs at acquired with stillOpen
  · rw [acquired] at returned
    cases returned
    have stays : ¬ call.ClosedAfterChoice s := by
      rintro ⟨cu', selected', closed⟩
      cases selected.symm.trans selected'
      rw [looked, stillOpen] at closed
      cases closed
    obtain ⟨-, -, marked, chosen, protocol, user⟩ := closes.selectCu_ok selected
    obtain ⟨inside, bit⟩ := (mem_cuMaskToCuIdx call.cuMask cu).mp marked
    constructor
    · intro right
      obtain ⟨_, -, -, -, -, -, -, -, stats, counted, -⟩ := right.1 rfl
      exact ⟨stays, fun _ _ => by rw [counted]; rfl⟩
    · rintro ⟨-, counted⟩
      obtain ⟨stats, found⟩ := Option.isSome_iff_exists.mp (counted cu selected)
      refine ⟨fun _ => ⟨cu, rfl, inside, bit, ⟨0, chosen⟩, protocol, user, rfl, stats, found, ?_⟩,
        fun failed => absurd rfl failed⟩
      simp only [Counters.addSubmitted, Counters.incUsage, found, Option.map_some]
  · -- the usage of the first choice has grown, and the command is queued elsewhere if at all
    simp only [acquired, if_true] at returned
    have closed : call.isOpen (call.checkTime 0) cu = false := by simpa using stillOpen
    obtain ⟨grown, queued⟩ :=
      closes.dispatchLoop_frame returned (closes.stays_closed (Nat.le_succ _) closed)
    have usage : s'.usage cu = s.usage cu + 1 := grown.trans (Function.update_self ..)
    refine iff_of_false (fun right => ?_) (fun both => both.1 ⟨cu, selected, looked.trans (by rw [closed])⟩)
    by_cases zero : ret = 0
    · obtain ⟨cu', queued', -, -, -, -, -, usage', -⟩ := right.1 zero
      obtain ⟨other, differs, queued''⟩ := queued zero
      have same : [cu'] = [other] := List.append_cancel_left (queued'.symm.trans queued'')
      cases same
      rw [usage', Function.update_of_ne differs.symm] at usage
      exact add_one_ne _ usage.symm
    · rw [(right.2 zero).1] at usage
      exact add_one_ne _ usage.symm

/-- Two CUs of equal usage in one mask; the first is open until time `closing`. -/
def dispatchExample (closing : Nat) : Dispatch where
  cuMask := [3]
  hwCtx := 0
  numCus := 2
  ctrlNone _ := false
  isUcu _ := false
  refcnt := true
  isOpen t cu := cu = 1 || t < closing

def countersExample : Counters where
  usage _ := 0
  submitted hwCtx := if hwCtx = 0 then some fun _ => 0 else none
  queued := []

/-- A CU that stays open during the dispatch. -/
theorem kdsCuDispatch_right_while_open :
    ∃ ret s', (dispatchExample 3).kdsCuDispatch countersExample = some (ret, s')
      ∧ (dispatchExample 3).Right countersExample ret s' := by
  have closes : (dispatchExample 3).OnlyCloses := by
    intro cu t t' le later
    simp only [dispatchExample, Bool.or_eq_true, decide_eq_true_eq] at later ⊢
    omega
  obtain ⟨ret, s', returned, right⟩ :=
    kdsCuDispatch_right_iff (dispatchExample 3) closes countersExample
  refine ⟨ret, s', returned, right.mpr ⟨?_, fun _ _ => rfl⟩⟩
  rintro ⟨cu, selected, closed⟩
  have first : (dispatchExample 3).selectCu 0 countersExample.usage = .ok 0 := by decide
  cases first.symm.trans selected
  exact absurd closed (by decide)

/-- A CU that is closed between the two looks: the command goes to the other CU, and both have been
counted. -/
theorem kdsCuDispatch_counts_twice :
    (((dispatchExample 2).kdsCuDispatch countersExample).map fun result =>
        (result.1, result.2.queued, result.2.usage 0, result.2.usage 1))
      = some (0, [1], 1, 1) := by
  decide

end Dispatch

end Xrt.Kds
