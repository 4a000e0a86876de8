import Xrt.Kds.Counting

/-!
# Contexts of virtual CUs

A virtual CU has no entry of its own: its first open counts on the first CDMA unit, and its last
close takes that count back. The close decrements the count of the client twice, once in each of
its two conditions.
-/
namespace Xrt.Kds

variable {Client : Type*} [DecidableEq Client]

def KdsSched.cdma (kds : KdsSched Client) : Cu Client := kds.cu .cu kds.cdmaIdx

def KdsSched.setCdma (kds : KdsSched Client) (cu : Cu Client) : KdsSched Client :=
  kds.setCu .cu kds.cdmaIdx cu

omit [DecidableEq Client] in
@[simp] theorem setCdma_cdma (kds : KdsSched Client) (cu : Cu Client) :
    (kds.setCdma cu).cdma = cu := by
  simp [KdsSched.cdma, KdsSched.setCdma, KdsSched.setCu, KdsSched.cdmaIdx]

omit [DecidableEq Client] in
@[simp] theorem setCdma_numCdma (kds : KdsSched Client) (cu : Cu Client) :
    (kds.setCdma cu).numCdma = kds.numCdma := rfl

@[simp] theorem setCuCtx_cdma (kds : KdsSched Client) (client : Client) (key : CuKey)
    (cuCtx : Option CuCtx) : (kds.setCuCtx client key cuCtx).cdma = kds.cdma := rfl

/-- An open and, whatever it has returned, a close of the same context. -/
def openClose (kds : KdsSched Client) (client : Client) (key : CuKey) (cuCtx : CuCtx) :
    Int × Int × KdsSched Client :=
  let opened := kdsAddContext kds client key cuCtx
  -- only an open that succeeds counts in `ref_cnt`
  let cuCtx := if opened.1 = 0 then { cuCtx with refCnt := cuCtx.refCnt + 1 } else cuCtx
  let closed := kdsDelContext opened.2 client key cuCtx
  (opened.1, closed.1, closed.2)

/-! ### The counters of the CDMA unit -/

/-- What the first open of a virtual CU does to the unit. -/
def cdmaIncr (cu : Cu Client) (client : Client) : Int × Cu Client :=
  let incr := kdsTestAndRefcntIncr cu client
  if incr.1 < 0 then (-EINVAL, incr.2) else (0, { incr.2 with cuRefs := incr.2.cuRefs + 1 })

/-- What the last close does to it. -/
def cdmaDecr (cu : Cu Client) (client : Client) : Int × Cu Client :=
  let first := kdsTestAndRefcntDecr cu client
  if first.1 < 0 then (-EINVAL, first.2)
  else
    let second := kdsTestAndRefcntDecr first.2 client
    if second.1 = 0 then (-EINVAL, second.2)
    else (0, { second.2 with cuRefs := second.2.cuRefs - 1 })

section Unit

variable {cu : Cu Client} {client : Client}

theorem cdmaIncr_negative (negative : 2 ^ 31 ≤ (cu.refs client).toNat) :
    (cdmaIncr cu client).1 = -EINVAL := by
  have overflow := (toInt_neg_iff _).mpr negative
  exact congrArg Prod.fst (if_pos overflow)

theorem cdmaIncr_counted (small : (cu.refs client).toNat < 2 ^ 31) :
    cdmaIncr cu client
      = (0, { cu.setRefs client (cu.refs client + 1) with cuRefs := cu.cuRefs + 1 }) := by
  have counted : ¬ (cu.refs client).toInt < 0 := by
    rw [toInt_neg_iff]
    omega
  exact if_neg counted

theorem kdsTestAndRefcntDecr_positive (positive : 0 < (cu.refs client).toNat)
    (small : (cu.refs client).toNat < 2 ^ 31) :
    kdsTestAndRefcntDecr cu client
      = ((cu.refs client).toInt, cu.setRefs client (cu.refs client - 1)) := by
  have value := toInt_eq_toNat _ small
  exact congrArg _ (if_pos (by omega))

theorem cdmaDecr_negative (negative : 2 ^ 31 ≤ (cu.refs client).toNat) :
    (cdmaDecr cu client).1 = -EINVAL := by
  have overflow := (toInt_neg_iff _).mpr negative
  exact congrArg Prod.fst (if_pos overflow)

/-- With one reference the second decrement finds none left. -/
theorem cdmaDecr_one (one : cu.refs client = 1) :
    cdmaDecr cu client = (-EINVAL, cu.setRefs client 0) := by
  have first : kdsTestAndRefcntDecr cu client = (1, cu.setRefs client 0) := by
    rw [kdsTestAndRefcntDecr_positive (by rw [one]; decide) (by rw [one]; decide), one]
    rfl
  have second : kdsTestAndRefcntDecr (cu.setRefs client 0) client = (0, cu.setRefs client 0) := by
    rw [kdsTestAndRefcntDecr, Cu.setRefs_refs_self]
    rfl
  simp only [cdmaDecr, first, second]
  rfl

/-- With more it takes two of them. -/
theorem cdmaDecr_more (more : 1 < (cu.refs client).toNat)
    (small : (cu.refs client).toNat < 2 ^ 31) :
    cdmaDecr cu client
      = (0, { (cu.setRefs client (cu.refs client - 1)).setRefs client (cu.refs client - 1 - 1) with
          cuRefs := cu.cuRefs - 1 }) := by
  have left : (cu.refs client - 1).toNat = (cu.refs client).toNat - 1 := by bv_omega
  have first := kdsTestAndRefcntDecr_positive (by omega) small
  have second : kdsTestAndRefcntDecr (cu.setRefs client (cu.refs client - 1)) client
      = ((cu.refs client - 1).toInt,
          (cu.setRefs client (cu.refs client - 1)).setRefs client (cu.refs client - 1 - 1)) := by
    rw [kdsTestAndRefcntDecr_positive, Cu.setRefs_refs_self]
    all_goals
      rw [Cu.setRefs_refs_self]
      omega
  have value := toInt_eq_toNat _ small
  have value' := toInt_eq_toNat (cu.refs client - 1) (by omega)
  simp only [cdmaDecr, first]
  rw [if_neg (by omega), second]
  exact if_neg (by simp only; omega)

end Unit

/-! ### The two calls -/

section Calls

variable {kds : KdsSched Client} {client : Client} {key : CuKey} {cuCtx : CuCtx}

theorem addVirtContext_eq (cdma : 0 < kds.numCdma) (first : cuCtx.refCnt = 0)
    (shared : cuCtx.flags ≠ CU_CTX_EXCLUSIVE) :
    addVirtContext kds client cuCtx
      = ((cdmaIncr kds.cdma client).1, kds.setCdma (cdmaIncr kds.cdma client).2) := by
  simp only [addVirtContext, cdmaIncr, KdsSched.cdma, KdsSched.setCdma]
  rw [if_neg shared, if_pos ⟨Nat.pos_iff_ne_zero.mp cdma, first⟩]
  split_ifs with negative <;> simp only [negative, if_true, if_false]

theorem delVirtContext_eq (cdma : 0 < kds.numCdma) :
    delVirtContext kds client
      = ((cdmaDecr kds.cdma client).1, kds.setCdma (cdmaDecr kds.cdma client).2) := by
  simp only [delVirtContext, cdmaDecr, KdsSched.cdma, KdsSched.setCdma]
  rw [if_pos (Nat.pos_iff_ne_zero.mp cdma)]
  split_ifs with negative none
  · simp only [negative, if_true]
  · simp only [negative, none, if_true, if_false]
  · simp only [negative, none, if_false]

/-- An exclusive virtual context is refused. -/
theorem openClose_exclusive (virt : key.domain = .virt)
    (exclusive : cuCtx.flags = CU_CTX_EXCLUSIVE) :
    (openClose kds client key cuCtx).1 = -EINVAL := by
  simp only [openClose, kdsAddContext, addByDomain, virt, addVirtContext, if_pos exclusive]
  rfl

theorem openClose_refused (virt : key.domain = .virt) (cdma : 0 < kds.numCdma)
    (first : cuCtx.refCnt = 0) (shared : cuCtx.flags ≠ CU_CTX_EXCLUSIVE)
    (negative : 2 ^ 31 ≤ (kds.cdma.refs client).toNat) :
    (openClose kds client key cuCtx).1 = -EINVAL := by
  simp only [openClose, kdsAddContext, addByDomain, virt, addVirtContext_eq cdma first shared,
    cdmaIncr_negative negative, if_pos neg_EINVAL_ne_zero]

/-- An open that counts is followed by the decrements of the last close. -/
theorem openClose_counted (virt : key.domain = .virt) (cdma : 0 < kds.numCdma)
    (first : cuCtx.refCnt = 0) (shared : cuCtx.flags ≠ CU_CTX_EXCLUSIVE)
    (small : (kds.cdma.refs client).toNat < 2 ^ 31) :
    (openClose kds client key cuCtx).1 = 0
      ∧ (openClose kds client key cuCtx).2.1
          = (cdmaDecr { kds.cdma.setRefs client (kds.cdma.refs client + 1) with
              cuRefs := kds.cdma.cuRefs + 1 } client).1
      ∧ (openClose kds client key cuCtx).2.2.cdma
          = (cdmaDecr { kds.cdma.setRefs client (kds.cdma.refs client + 1) with
              cuRefs := kds.cdma.cuRefs + 1 } client).2 := by
  simp only [openClose, kdsAddContext, addByDomain, virt, addVirtContext_eq cdma first shared,
    cdmaIncr_counted small, ne_eq, not_true_eq_false, if_false, if_true, first]
  have last : ¬ (0 + 1 : BitVec 32) = 0 := by decide
  have dropped : ¬ (0 + 1 - 1 : BitVec 32) ≠ 0 := by decide
  simp only [kdsDelContext, if_neg last, if_neg dropped, delByDomain, virt]
  rw [delVirtContext_eq (by exact cdma)]
  simp

/-- The round trip never restores everything. Both calls return zero exactly if the client holds the
unit already, and then it has one reference less than before; a client that does not hold the
unit cannot close, and its reference stays on the unit. -/
theorem openClose_virt (kds : KdsSched Client) (client : Client) (key : CuKey) (cuCtx : CuCtx)
    (virt : key.domain = .virt) (cdma : 0 < kds.numCdma) (first : cuCtx.refCnt = 0) :
    ((openClose kds client key cuCtx).1 = 0 ∧ (openClose kds client key cuCtx).2.1 = 0
        ↔ cuCtx.flags ≠ CU_CTX_EXCLUSIVE ∧ 0 < (kds.cdma.refs client).toNat
          ∧ (kds.cdma.refs client).toNat + 1 < 2 ^ 31)
      ∧ ((openClose kds client key cuCtx).1 = 0 ∧ (openClose kds client key cuCtx).2.1 = 0 →
          (openClose kds client key cuCtx).2.2.cdma.cuRefs = kds.cdma.cuRefs
            ∧ (openClose kds client key cuCtx).2.2.cdma.refs client = kds.cdma.refs client - 1)
      ∧ (cuCtx.flags ≠ CU_CTX_EXCLUSIVE → kds.cdma.refs client = 0 →
          (openClose kds client key cuCtx).1 = 0
            ∧ (openClose kds client key cuCtx).2.1 = -EINVAL
            ∧ (openClose kds client key cuCtx).2.2.cdma.cuRefs = kds.cdma.cuRefs + 1
            ∧ (openClose kds client key cuCtx).2.2.cdma.refs client = kds.cdma.refs client) := by
  by_cases exclusive : cuCtx.flags = CU_CTX_EXCLUSIVE
  · have refused : (openClose kds client key cuCtx).1 ≠ 0 := by
      rw [openClose_exclusive virt exclusive]
      exact neg_EINVAL_ne_zero
    simp [refused, exclusive]
  rcases Nat.lt_or_ge (kds.cdma.refs client).toNat (2 ^ 31) with small | negative
  case inr =>
    have refused : (openClose kds client key cuCtx).1 ≠ 0 := by
      rw [openClose_refused virt cdma first exclusive negative]
      exact neg_EINVAL_ne_zero
    refine ⟨iff_of_false (fun both => refused both.1) (fun bounds => by omega),
      fun both => absurd both.1 refused, fun _ none => ?_⟩
    rw [none] at negative
    exact absurd negative (by decide)
  obtain ⟨opened, closed, left⟩ :=
    @openClose_counted _ _ kds client key cuCtx virt cdma first exclusive small
  have next : (kds.cdma.refs client + 1).toNat = (kds.cdma.refs client).toNat + 1 := by bv_omega
  rw [opened, closed, left]
  rcases Nat.eq_zero_or_pos (kds.cdma.refs client).toNat with zero | positive
  · -- the client did not hold the unit
    have none : kds.cdma.refs client = 0 := BitVec.eq_of_toNat_eq zero
    rw [cdmaDecr_one (by simp [none])]
    refine ⟨iff_of_false (fun both => neg_EINVAL_ne_zero both.2) (fun bounds => by omega),
      fun both => absurd both.2 neg_EINVAL_ne_zero, fun _ _ => ⟨rfl, rfl, rfl, ?_⟩⟩
    rw [Cu.setRefs_refs_self, none]
  have held : kds.cdma.refs client ≠ 0 := fun none => by
    rw [none] at positive
    exact absurd positive (by decide)
  rcases Nat.lt_or_ge ((kds.cdma.refs client).toNat + 1) (2 ^ 31) with fits | full
  · rw [cdmaDecr_more (by simp only [Cu.setRefs_refs_self]; omega)
      (by simp only [Cu.setRefs_refs_self]; omega)]
    refine ⟨iff_of_true ⟨rfl, rfl⟩ ⟨exclusive, positive, fits⟩, fun _ => ⟨?_, ?_⟩,
      fun _ none => absurd none held⟩
    · exact BitVec.add_sub_cancel _ _
    · simp only [Cu.setRefs_refs_self]
      rw [BitVec.add_sub_cancel]
  · -- the count just opened is negative for the close
    rw [cdmaDecr_negative (by simp only [Cu.setRefs_refs_self]; omega)]
    exact ⟨iff_of_false (fun both => neg_EINVAL_ne_zero both.2) (fun bounds => by omega),
      fun both => absurd both.2 neg_EINVAL_ne_zero, fun _ none => absurd none held⟩

/-- One CDMA unit with one reference by somebody, and a client with so many references of it. -/
def virtExample (refs : BitVec 32) : KdsSched Unit where
  numCus := 1
  numCdma := 1
  cu _ _ := ⟨true, 1, fun _ => refs⟩
  cuCtx _ _ := none

/-- A client that holds two references of the unit, and has one after the round trip. -/
theorem openClose_virt_held :
    (openClose (virtExample 2) () ⟨0, .virt, 0⟩ ⟨0, 0⟩).2.2.cdma.cuRefs = 1
      ∧ (openClose (virtExample 2) () ⟨0, .virt, 0⟩ ⟨0, 0⟩).2.2.cdma.refs () = 1 :=
  (openClose_virt (virtExample 2) () ⟨0, .virt, 0⟩ ⟨0, 0⟩ rfl (by decide) rfl).2.1
    ⟨by decide, by decide⟩

/-- The first open of a client without the unit: the close fails and the unit keeps a reference. -/
theorem openClose_virt_leaks :
    (openClose (virtExample 0) () ⟨0, .virt, 0⟩ ⟨0, 0⟩).1 = 0
      ∧ (openClose (virtExample 0) () ⟨0, .virt, 0⟩ ⟨0, 0⟩).2.1 = -EINVAL
      ∧ (virtExample 0).cdma.cuRefs = 1
      ∧ (openClose (virtExample 0) () ⟨0, .virt, 0⟩ ⟨0, 0⟩).2.2.cdma.cuRefs = 2 := by
  decide

end Calls

end Xrt.Kds
