import Xrt.Kds.Context
import Mathlib.Algebra.BigOperators.Group.Finset.Basic
import Mathlib.Data.Finset.Card

/-!
# What an open and a close do to the counters

Each call changes the counters of one CU, for one client and one CU context. This module
reads off the possible changes once; the results about exclusive reservations and about
balanced calls are derived from them.
-/
namespace Xrt.Kds

variable {Client : Type*} [DecidableEq Client]

/-! ### Ranges of the counters -/

theorem toInt_neg_iff (count : BitVec 32) : count.toInt < 0 ↔ 2 ^ 31 ≤ count.toNat := by
  rw [BitVec.toInt_neg_iff]
  omega

theorem toInt_eq_toNat (count : BitVec 32) (small : count.toNat < 2 ^ 31) :
    count.toInt = count.toNat := by
  rw [BitVec.toInt_eq_toNat_cond, if_pos (by omega)]

theorem toInt_eq_iff {count : BitVec 32} (small : count.toNat < 2 ^ 31) (value : BitVec 32) :
    count.toInt = value.toNat ↔ count = value := by
  rw [toInt_eq_toNat count small, Int.natCast_inj]
  exact BitVec.toNat_inj

omit [DecidableEq Client] in
theorem Cu.exclusive_iff (cu : Cu Client) : cu.exclusive = true ↔ 2 ^ 31 ≤ cu.cuRefs.toNat := by
  have mask : CU_EXCLU_MASK = BitVec.twoPow 32 31 := by decide
  have top : cu.cuRefs.getLsbD 31 = decide (2 ^ 31 ≤ cu.cuRefs.toNat) :=
    (BitVec.msb_eq_getLsbD_last cu.cuRefs).symm.trans (BitVec.msb_eq_decide cu.cuRefs)
  unfold Cu.exclusive
  rw [mask, BitVec.and_twoPow, top]
  simp

omit [DecidableEq Client] in
theorem Cu.cuRefs_lt {cu : Cu Client} (free : cu.exclusive = false) :
    cu.cuRefs.toNat < 2 ^ 31 := by
  have notReserved := (not_congr cu.exclusive_iff).mp (by simp [free])
  omega

/-! ### One CU -/

@[simp] theorem Cu.setRefs_cuRefs (cu : Cu Client) (client : Client) (count : BitVec 32) :
    (cu.setRefs client count).cuRefs = cu.cuRefs := rfl

@[simp] theorem Cu.setRefs_exclusive (cu : Cu Client) (client : Client) (count : BitVec 32) :
    (cu.setRefs client count).exclusive = cu.exclusive := rfl

@[simp] theorem Cu.setRefs_refs_self (cu : Cu Client) (client : Client) (count : BitVec 32) :
    (cu.setRefs client count).refs client = count := by
  simp [Cu.setRefs]

theorem Cu.setRefs_refs_other (cu : Cu Client) {client other : Client} (count : BitVec 32)
    (different : other ≠ client) : (cu.setRefs client count).refs other = cu.refs other := by
  simp [Cu.setRefs, different]

def Cu.added (cu : Cu Client) (client : Client) (flags : BitVec 32) : Cu Client :=
  { cu.setRefs client (cu.refs client + 1) with
    cuRefs :=
      if sharedFlags flags then (if cu.refs client = 0 then cu.cuRefs + 1 else cu.cuRefs)
      else CU_EXCLU_MASK }

theorem neg_EINVAL_ne_zero : -EINVAL ≠ 0 := by decide

/-- A rejected add restores the client's count, unless the count has already reached the
negative range of `int`; then the increment stays. -/
theorem addRollback_cases (cu : Cu Client) (client : Client) {ret : Int} (failing : ret ≠ 0) :
    (addRollback (cu.setRefs client (cu.refs client + 1)) client ret).1 ≠ 0 ∧
    ((addRollback (cu.setRefs client (cu.refs client + 1)) client ret).2 = cu ∨
      2 ^ 31 - 1 ≤ (cu.refs client).toNat ∧
      (addRollback (cu.setRefs client (cu.refs client + 1)) client ret).2 =
        cu.setRefs client (cu.refs client + 1)) := by
  have next : (cu.refs client + 1).toNat = ((cu.refs client).toNat + 1) % 2 ^ 32 := by
    rfl
  have value := BitVec.toInt_eq_toNat_cond (cu.refs client + 1)
  simp only [addRollback, kdsTestAndRefcntDecr, Cu.setRefs, Function.update_self]
  refine ⟨?_, ?_⟩
  · split
    · decide
    · exact failing
  · split
    · simp
    next stays =>
      -- the decrement is refused because the incremented count is not positive as an `int`
      right
      refine ⟨?_, rfl⟩
      split at value <;> omega

theorem kdsAddCuContext_cases (cu : Cu Client) (cuIdx : Nat) (client : Client)
    (flags : BitVec 32) :
    ((kdsAddCuContext cu cuIdx client flags).1 = 0 ∧
      (kdsAddCuContext cu cuIdx client flags).2 = cu.added client flags ∧
      (cu.refs client).toNat < 2 ^ 31 ∧ cu.exclusive = false ∧
      (sharedFlags flags = false → cu.cuRefs = 0)) ∨
    ((kdsAddCuContext cu cuIdx client flags).1 ≠ 0 ∧
      ((kdsAddCuContext cu cuIdx client flags).2 = cu ∨
        2 ^ 31 - 1 ≤ (cu.refs client).toNat ∧
        (kdsAddCuContext cu cuIdx client flags).2 = cu.setRefs client (cu.refs client + 1))) := by
  unfold kdsAddCuContext
  split
  · exact .inr ⟨neg_EINVAL_ne_zero, .inl rfl⟩
  · dsimp only [kdsTestAndRefcntIncr]
    split
    next negative =>
      -- `kds_test_and_refcnt_incr` has incremented, and this return does not undo it
      have big := (toInt_neg_iff _).mp negative
      exact .inr ⟨by omega, .inr ⟨by omega, rfl⟩⟩
    next counted =>
      have small : (cu.refs client).toNat < 2 ^ 31 := by
        rw [toInt_neg_iff] at counted
        omega
      split
      · exact .inr (addRollback_cases cu client (by decide))
      next free =>
        rw [Cu.setRefs_exclusive, Bool.not_eq_true] at free
        split
        · exact .inr (addRollback_cases cu client (by decide))
        next allowed =>
          refine .inl ?_
          split
          next exclusive =>
            have unshared : sharedFlags flags = false := by simpa using exclusive
            have unused : cu.cuRefs = 0 := by simpa [unshared] using allowed
            refine ⟨rfl, ?_, small, free, fun _ => unused⟩
            simp [Cu.added, Cu.setRefs, unshared, unused, CU_EXCLU_MASK]
          next shared =>
            have isShared : sharedFlags flags = true := by simpa using shared
            have zero : (cu.refs client).toInt = 0 ↔ cu.refs client = 0 := toInt_eq_iff small 0
            split
            next first =>
              refine ⟨rfl, ?_, small, free, by simp [isShared]⟩
              simp [Cu.added, isShared, zero.mp first]
            next again =>
              refine ⟨rfl, ?_, small, free, by simp [isShared]⟩
              have notFirst : ¬ cu.refs client = 0#32 := (not_congr zero).mp again
              simp [Cu.added, isShared, notFirst, Cu.setRefs]

def Cu.deleted (cu : Cu Client) (client : Client) : Cu Client :=
  { cu.setRefs client (cu.refs client - 1) with
    cuRefs :=
      if cu.exclusive then 0 else if cu.refs client = 1 then cu.cuRefs - 1 else cu.cuRefs }

theorem kdsDelCuContext_cases (cu : Cu Client) (cuIdx : Nat) (client : Client) :
    ((kdsDelCuContext cu cuIdx client).1 = 0 ∧
      (kdsDelCuContext cu cuIdx client).2 = cu.deleted client ∧
      0 < (cu.refs client).toNat ∧ (cu.refs client).toNat < 2 ^ 31) ∨
    ((kdsDelCuContext cu cuIdx client).1 ≠ 0 ∧ (kdsDelCuContext cu cuIdx client).2 = cu) := by
  unfold kdsDelCuContext
  split
  · exact .inr ⟨neg_EINVAL_ne_zero, rfl⟩
  · dsimp only [kdsTestAndRefcntDecr]
    split
    -- a count that is not positive is returned as it is, without a decrement
    next negative => exact .inr ⟨neg_EINVAL_ne_zero, if_neg (by omega)⟩
    next counted =>
      split
      next none => exact .inr ⟨neg_EINVAL_ne_zero, if_neg (by omega)⟩
      next some =>
        refine .inl ?_
        have small : (cu.refs client).toNat < 2 ^ 31 := by
          rw [toInt_neg_iff] at counted
          omega
        have value := toInt_eq_toNat _ small
        have one : (cu.refs client).toInt = 1 ↔ cu.refs client = 1 := toInt_eq_iff small 1
        have positive : (cu.refs client).toInt > 0 := by omega
        have nonzero : 0 < (cu.refs client).toNat := by omega
        simp only [positive, if_true, Cu.setRefs_exclusive]
        split
        next reserved => exact ⟨rfl, by simp [Cu.deleted, reserved], nonzero, small⟩
        next free =>
          split
          next last =>
            simp [Cu.deleted, free, one.mp last]
          next more =>
            refine ⟨rfl, ?_, nonzero, small⟩
            have notLast : ¬ cu.refs client = 1#32 := (not_congr one).mp more
            simp [Cu.deleted, free, notLast, Cu.setRefs]

/-! ### The counters of one CU -/

def Bank.domain : Bank → CuDomain
  | .cu => .pl
  | .scu => .ps

def Bank.key (bank : Bank) (hwCtx cuIdx : Nat) : CuKey := ⟨hwCtx, bank.domain, cuIdx⟩

theorem Bank.key_inj {bank other : Bank} {hwCtx hwCtx' cuIdx cuIdx' : Nat}
    (same : bank.key hwCtx cuIdx = other.key hwCtx' cuIdx') :
    bank = other ∧ cuIdx = cuIdx' ∧ hwCtx = hwCtx' := by
  cases bank <;> cases other <;> simp_all [Bank.key, Bank.domain]

variable (kds : KdsSched Client)

variable (client : Client)

variable (key : CuKey)

/-- `ref_cnt` of a CU context, zero where there is none. -/
def KdsSched.refCnt : BitVec 32 :=
  match kds.cuCtx client key with
  | some cuCtx => cuCtx.refCnt
  | none => 0

/-- All counters of one CU; `count` is `ref_cnt` by client and hardware context. -/
structure CuState (Client : Type*) where
  cu : Cu Client
  count : Client → Nat → BitVec 32

def KdsSched.state (bank : Bank) (idx : Nat) : CuState Client where
  cu := kds.cu bank idx
  count := fun client hwCtx => kds.refCnt client (bank.key hwCtx idx)

def setCount (count : Client → Nat → BitVec 32) (client : Client) (hwCtx : Nat)
    (value : BitVec 32) : Client → Nat → BitVec 32 :=
  Function.update count client (Function.update (count client) hwCtx value)

theorem refCnt_setCuCtx (cuCtx : Option CuCtx) (client' : Client) (key' : CuKey) :
    (kds.setCuCtx client key cuCtx).refCnt client' key' =
      if client' = client ∧ key' = key then (cuCtx.map (·.refCnt)).getD 0
      else kds.refCnt client' key' := by
  unfold KdsSched.refCnt KdsSched.setCuCtx
  by_cases sameClient : client' = client
  · subst sameClient
    by_cases sameKey : key' = key
    · subst sameKey
      cases cuCtx <;> simp
    · simp [sameKey]
  · simp [sameClient]

omit [DecidableEq Client] in
theorem state_congr {kds kds' : KdsSched Client} (sameCu : kds'.cu = kds.cu)
    (sameCnt : kds'.refCnt = kds.refCnt) : kds'.state = kds.state := by
  funext bank idx
  simp only [KdsSched.state, sameCu, sameCnt]

omit [DecidableEq Client] in
theorem state_setCu (bank : Bank) (idx : Nat) (cu : Cu Client) (bank' : Bank) (idx' : Nat) :
    (kds.setCu bank idx cu).state bank' idx' =
      if bank' = bank ∧ idx' = idx then ⟨cu, (kds.state bank idx).count⟩
      else kds.state bank' idx' := by
  unfold KdsSched.state KdsSched.setCu
  by_cases sameBank : bank' = bank
  · subst sameBank
    by_cases sameIdx : idx' = idx
    · subst sameIdx
      simp [KdsSched.refCnt]
    · simp [sameIdx, KdsSched.refCnt]
  · simp [sameBank, KdsSched.refCnt]

theorem state_setCuCtx (bank : Bank)
    (hwCtx idx : Nat) (cuCtx : Option CuCtx) (bank' : Bank) (idx' : Nat) :
    (kds.setCuCtx client (bank.key hwCtx idx) cuCtx).state bank' idx' =
      if bank' = bank ∧ idx' = idx then
        ⟨(kds.state bank idx).cu,
          setCount (kds.state bank idx).count client hwCtx ((cuCtx.map (·.refCnt)).getD 0)⟩
      else kds.state bank' idx' := by
  unfold KdsSched.state setCount
  by_cases same : bank' = bank ∧ idx' = idx
  · obtain ⟨rfl, rfl⟩ := same
    simp only [and_self, if_true, CuState.mk.injEq]
    refine ⟨rfl, ?_⟩
    funext client' hwCtx'
    rw [refCnt_setCuCtx]
    by_cases sameClient : client' = client
    · subst sameClient
      by_cases sameHw : hwCtx' = hwCtx
      · subst sameHw
        simp
      · have different : bank'.key hwCtx' idx' ≠ bank'.key hwCtx idx' := fun sameKey =>
          sameHw (Bank.key_inj sameKey).2.2
        simp [sameHw, different]
    · simp [sameClient]
  · rw [if_neg same]
    simp only [CuState.mk.injEq]
    refine ⟨rfl, ?_⟩
    funext client' hwCtx'
    rw [refCnt_setCuCtx, if_neg]
    rintro ⟨-, sameKey⟩
    obtain ⟨sameBank, sameIdx, -⟩ := Bank.key_inj sameKey
    exact same ⟨sameBank, sameIdx⟩

theorem kdsFreeCuCtx_state : (kdsFreeCuCtx kds client key).state = kds.state := by
  unfold kdsFreeCuCtx
  split
  next cuCtx present =>
    split
    next closed =>
      refine state_congr ?_ ?_
      · rfl
      funext client' key'
      rw [refCnt_setCuCtx]
      split
      next same =>
        -- the freed context had count zero, which is also the count of an absent one
        obtain ⟨rfl, rfl⟩ := same
        simp [KdsSched.refCnt, present, closed]
      · rfl
    · rfl
  · rfl

/-- The flags that an open works with: those of the context that is already there. -/
def KdsSched.usedFlags (flags : BitVec 32) : BitVec 32 :=
  match kds.cuCtx client key with
  | some cuCtx => cuCtx.flags
  | none => flags

theorem kdsAllocCuHwCtx_spec {kds kds' : KdsSched Client} {client : Client} {key : CuKey}
    {flags : BitVec 32} {memory : Bool} {cuCtx : CuCtx}
    (allocated : kdsAllocCuHwCtx kds client key flags memory = some (cuCtx, kds')) :
    kds'.state = kds.state ∧ kds'.cu = kds.cu ∧ cuCtx.flags = kds.usedFlags client key flags ∧
      cuCtx.refCnt = kds.refCnt client key := by
  unfold kdsAllocCuHwCtx at allocated
  split at allocated
  next found present =>
    cases allocated
    simp [KdsSched.usedFlags, KdsSched.refCnt, present]
  next absent =>
    split at allocated
    · cases allocated
      refine ⟨state_congr rfl ?_, rfl, ?_, ?_⟩
      · funext client' key'
        rw [refCnt_setCuCtx]
        split
        next same =>
          obtain ⟨rfl, rfl⟩ := same
          simp [KdsSched.refCnt, absent]
        · rfl
      · simp [KdsSched.usedFlags, absent]
      · simp [KdsSched.refCnt, absent]
    · cases allocated

theorem addByDomain_key (bank : Bank) (hwCtx idx : Nat) (cuCtx : CuCtx) :
    addByDomain kds client (bank.key hwCtx idx) cuCtx =
      (if (kdsAddCuContext (kds.cu bank idx) idx client cuCtx.flags).1 ≠ 0 then -EINVAL else 0,
        kds.setCu bank idx (kdsAddCuContext (kds.cu bank idx) idx client cuCtx.flags).2) := by
  cases bank <;> rfl

theorem delByDomain_key (bank : Bank) (hwCtx idx : Nat) :
    delByDomain kds client (bank.key hwCtx idx) =
      (if (kdsDelCuContext (kds.cu bank idx) idx client).1 ≠ 0 then -EINVAL else 0,
        kds.setCu bank idx (kdsDelCuContext (kds.cu bank idx) idx client).2) := by
  cases bank <;> rfl

/-- An open changes the counters of its own CU only: with a nonzero result, at most the
client's count, and with result zero as `kds_add_context` does on success. -/
theorem xoclOpenCuContext_spec (bank : Bank)
    (hwCtx idx : Nat) (flags : BitVec 32) (memory : Bool) {ret : Int} {kds' : KdsSched Client}
    (opened : xoclOpenCuContext kds client (bank.key hwCtx idx) flags memory = (ret, kds')) :
    (∀ bank' idx', ¬ (bank' = bank ∧ idx' = idx) → kds'.state bank' idx' = kds.state bank' idx') ∧
    ((ret = 0 ∧
        let used := kds.usedFlags client (bank.key hwCtx idx) flags
        let s := kds.state bank idx
        (s.cu.refs client).toNat < 2 ^ 31 ∧ s.cu.exclusive = false ∧
        (sharedFlags used = false → s.cu.cuRefs = 0) ∧
        kds'.state bank idx =
          ⟨s.cu.added client used,
            setCount s.count client hwCtx (s.count client hwCtx + 1)⟩) ∨
      (ret ≠ 0 ∧
        (kds'.state bank idx = kds.state bank idx ∨
          2 ^ 31 - 1 ≤ ((kds.state bank idx).cu.refs client).toNat ∧
          kds'.state bank idx =
            ⟨(kds.state bank idx).cu.setRefs client ((kds.state bank idx).cu.refs client + 1),
              (kds.state bank idx).count⟩))) := by
  unfold xoclOpenCuContext at opened
  split at opened
  · cases opened
    exact ⟨fun _ _ _ => rfl, .inr ⟨neg_EINVAL_ne_zero, .inl rfl⟩⟩
  next cuCtx mid allocated =>
    obtain ⟨sameState, sameCu, usedFlags, counted⟩ := kdsAllocCuHwCtx_spec allocated
    have cuEq : mid.cu bank idx = (kds.state bank idx).cu := by rw [sameCu]; rfl
    simp only [kdsAddContext, addByDomain_key, cuEq, usedFlags] at opened
    rcases kdsAddCuContext_cases (kds.state bank idx).cu idx client
        (kds.usedFlags client (bank.key hwCtx idx) flags) with
      ⟨success, after, small, free, unused⟩ | ⟨failure, after⟩
    · simp only [success, ne_eq, not_true_eq_false, if_false, Prod.mk.injEq] at opened
      obtain ⟨rfl, rfl⟩ := opened
      refine ⟨?_, .inl ⟨rfl, small, free, unused, ?_⟩⟩
      · intro bank' idx' other
        rw [state_setCuCtx, if_neg other, state_setCu, if_neg other, sameState]
      · rw [state_setCuCtx, if_pos ⟨rfl, rfl⟩, state_setCu, if_pos ⟨rfl, rfl⟩, sameState, after,
          Option.map_some, Option.getD_some, counted]
        rfl
    · -- the failed open frees the context again if nothing else holds it
      simp only [if_pos failure, neg_EINVAL_ne_zero, ne_eq, not_false_eq_true, if_true,
        Prod.mk.injEq] at opened
      obtain ⟨rfl, rfl⟩ := opened
      refine ⟨?_, .inr ⟨neg_EINVAL_ne_zero, ?_⟩⟩
      · intro bank' idx' other
        rw [kdsFreeCuCtx_state, state_setCu, if_neg other, sameState]
      · rw [kdsFreeCuCtx_state, state_setCu, if_pos ⟨rfl, rfl⟩, sameState]
        rcases after with restored | ⟨big, kept⟩
        · rw [restored]
          exact .inl rfl
        · rw [kept]
          exact .inr ⟨big, rfl⟩

/-- A close changes the counters of its own CU only. It fails on a context that is not
open; it lowers `ref_cnt`; and with the last reference it releases the CU, or fails to. -/
theorem xoclCloseCuContext_spec (bank : Bank) (hwCtx idx : Nat) {ret : Int} {kds' : KdsSched Client}
    (closed : xoclCloseCuContext kds client (bank.key hwCtx idx) = (ret, kds')) :
    (∀ bank' idx', ¬ (bank' = bank ∧ idx' = idx) → kds'.state bank' idx' = kds.state bank' idx') ∧
    let s := kds.state bank idx
    let count := s.count client hwCtx
    ((count = 0 ∧ ret ≠ 0 ∧ kds'.state bank idx = s) ∨
      (count ≠ 0 ∧ count ≠ 1 ∧ ret = 0 ∧
        kds'.state bank idx = ⟨s.cu, setCount s.count client hwCtx (count - 1)⟩) ∨
      (count = 1 ∧ ret ≠ 0 ∧ kds'.state bank idx = ⟨s.cu, setCount s.count client hwCtx 0⟩) ∨
      (count = 1 ∧ ret = 0 ∧ 0 < (s.cu.refs client).toNat ∧ (s.cu.refs client).toNat < 2 ^ 31 ∧
        kds'.state bank idx = ⟨s.cu.deleted client, setCount s.count client hwCtx 0⟩)) := by
  unfold xoclCloseCuContext at closed
  split at closed
  next absent =>
    cases closed
    refine ⟨fun _ _ _ => rfl, .inl ⟨?_, neg_EINVAL_ne_zero, rfl⟩⟩
    simp [KdsSched.state, KdsSched.refCnt, absent]
  next cuCtx present =>
    have counted : (kds.state bank idx).count client hwCtx = cuCtx.refCnt := by
      simp [KdsSched.state, KdsSched.refCnt, present]
    simp only [kdsDelContext] at closed
    by_cases none : cuCtx.refCnt = 0
    · rw [if_pos none] at closed
      cases closed
      exact ⟨fun _ _ _ => rfl, .inl ⟨counted.trans none, neg_EINVAL_ne_zero, rfl⟩⟩
    · rw [if_neg none] at closed
      have one : cuCtx.refCnt - 1 = 0 ↔ cuCtx.refCnt = 1 := by bv_omega
      by_cases last : cuCtx.refCnt - 1 = 0
      · -- the last reference: the outcome is that of `kds_del_cu_context`
        rw [if_neg (not_not.mpr last), delByDomain_key] at closed
        have midCu : (kds.setCuCtx client (bank.key hwCtx idx)
            (some { cuCtx with refCnt := cuCtx.refCnt - 1 })).cu bank idx =
              (kds.state bank idx).cu := rfl
        rw [midCu] at closed
        rcases kdsDelCuContext_cases (kds.state bank idx).cu idx client with
          ⟨success, after, used, small⟩ | ⟨failure, after⟩
        · simp only [success, ne_eq, not_true_eq_false, if_false, Prod.mk.injEq] at closed
          obtain ⟨rfl, rfl⟩ := closed
          refine ⟨?_, .inr (.inr (.inr ⟨counted.trans (one.mp last), rfl, used, small, ?_⟩))⟩
          · intro bank' idx' other
            rw [kdsFreeCuCtx_state, state_setCu, if_neg other, state_setCuCtx, if_neg other]
          · rw [kdsFreeCuCtx_state, state_setCu, if_pos ⟨rfl, rfl⟩, state_setCuCtx,
              if_pos ⟨rfl, rfl⟩, after, Option.map_some, Option.getD_some, last]
        · -- the reference is gone although the CU was not released
          simp only [if_pos failure, neg_EINVAL_ne_zero, ne_eq, not_false_eq_true, if_true,
            Prod.mk.injEq] at closed
          obtain ⟨rfl, rfl⟩ := closed
          refine ⟨?_, .inr (.inr (.inl ⟨counted.trans (one.mp last), neg_EINVAL_ne_zero, ?_⟩))⟩
          · intro bank' idx' other
            rw [state_setCu, if_neg other, state_setCuCtx, if_neg other]
          · rw [state_setCu, if_pos ⟨rfl, rfl⟩, state_setCuCtx, if_pos ⟨rfl, rfl⟩, after,
              Option.map_some, Option.getD_some, last]
      · rw [if_pos last] at closed
        obtain ⟨rfl, rfl⟩ := closed
        refine ⟨?_, .inr (.inl ⟨?_, ?_, rfl, ?_⟩)⟩
        · intro bank' idx' other
          rw [kdsFreeCuCtx_state, state_setCuCtx, if_neg other]
        · rw [counted]
          exact none
        · rw [counted]
          exact (not_congr one).mp last
        · rw [kdsFreeCuCtx_state, state_setCuCtx, if_pos ⟨rfl, rfl⟩, Option.map_some,
            Option.getD_some, counted]

/-! ### Requests -/

/-- The requests of the clients for PL and PS CUs. `memory` is whether the allocation of a
new CU context succeeds. -/
inductive Request (Client : Type*) where
  | openCu (client : Client) (hwCtx : Nat) (bank : Bank) (cuIdx : Nat) (flags : BitVec 32)
      (memory : Bool)
  | closeCu (client : Client) (hwCtx : Nat) (bank : Bank) (cuIdx : Nat)

def KdsSched.answer : Request Client → Int × KdsSched Client
  | .openCu client hwCtx bank cuIdx flags memory =>
    xoclOpenCuContext kds client (bank.key hwCtx cuIdx) flags memory
  | .closeCu client hwCtx bank cuIdx => xoclCloseCuContext kds client (bank.key hwCtx cuIdx)

/-- Nothing is open; `present` are the CUs that the device has. -/
def fresh (numCus numCdma : Nat) (present : Bank → Nat → Bool) : KdsSched Client where
  numCus := numCus
  numCdma := numCdma
  cu := fun bank idx => ⟨present bank idx, 0, fun _ => 0⟩
  cuCtx := fun _ _ => none

end Xrt.Kds
