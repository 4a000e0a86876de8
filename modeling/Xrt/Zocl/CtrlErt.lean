import Xrt.Errno
import Xrt.Lib.Ranges
import Xrt.Lib.Run

/-!
# The CU queues of the control device

`zert_create_cu_xgqs` cuts the shared ring area into rings of one size, as many as there are queues
and as fit, and enables a queue for each of them. `zert_assign_cu_xgqs` then gives a CU to the queue
with the index of the CU modulo the number of all queues, enabled or not.
-/
namespace Xrt.Zocl.CtrlErt

open Lib

def ZERT_CU_XGQ_MAX_SLOTS : Nat := 128
def ZERT_CU_XGQ_MIN_SLOTS : Nat := 4
def CTRL_XGQ_CU_SLOT_SIZE : Nat := 4 * 1024

/-- The header has 44 bytes and an entry of the completion queue 16. -/
def xgqRingLen (nslots slotsz : Nat) : Nat := 44 + nslots * (slotsz + 16)

/-- `zocl_ctrl_ert_cu_xgq`; the device is there once the queue is enabled. -/
structure CuXgq where
  ring : Nat := 0
  ringSize : Nat := 0
  slotSize : Nat := 0
  pdev : Bool := false
deriving DecidableEq, Repr

inductive Domain
  | pl
  | ps
deriving DecidableEq, Repr

/-- `zocl_ctrl_ert_cu`, without a queue as long as the index is `ZERT_INVALID_XGQ_ID`. -/
structure Cu where
  pdev : Bool
  xgqIdx : Option Nat
deriving DecidableEq, Repr

structure Zert where
  cuXgqRingStart : Nat
  cuXgqRingSize : Nat
  numCuXgqs : Nat
  cuXgqs : Nat → CuXgq
  /-- `zce_cus` and `zce_scus`. -/
  cus : Domain → Nat → Cu

/-- The loop that looks for the number of slots. -/
def halve (ringSize slotSz : Nat) : (fuel slotNum : Nat) → Nat
  | 0, slotNum => slotNum
  | fuel + 1, slotNum =>
    if slotNum ≠ 0 ∧ xgqRingLen slotNum slotSz > ringSize then halve ringSize slotSz fuel (slotNum / 2)
    else slotNum

namespace Zert

def slotNum (z : Zert) : Nat :=
  halve z.cuXgqRingSize CTRL_XGQ_CU_SLOT_SIZE ZERT_CU_XGQ_MAX_SLOTS ZERT_CU_XGQ_MAX_SLOTS

def xgqRingSize (z : Zert) : Nat := xgqRingLen z.slotNum CTRL_XGQ_CU_SLOT_SIZE

/-- The number of queues to enable. -/
def nxgqs (z : Zert) : Nat := min (z.cuXgqRingSize / z.xgqRingSize) z.numCuXgqs

def setXgq (z : Zert) (i : Nat) (xcu : CuXgq) : Zert :=
  { z with cuXgqs := Function.update z.cuXgqs i xcu }

/-- The loop that enables the queues; `make i` is what `zert_create_cu_xgq` returns. -/
def enableFrom (make : Nat → Int) (ringSize : Nat) : (left i : Nat) → Int → Zert → Int × Zert
  | 0, _, rc, z => (rc, z)
  | left + 1, i, _, z =>
    let xcu : CuXgq := ⟨z.cuXgqRingStart + ringSize * i, ringSize, CTRL_XGQ_CU_SLOT_SIZE, false⟩
    if make i ≠ 0 then (make i, z.setXgq i xcu)
    else enableFrom make ringSize left (i + 1) (make i) (z.setXgq i { xcu with pdev := true })

/-- `none` is the end in `BUG_ON`. `rc` has no value before the first queue is made. -/
def zertCreateCuXgqs (make : Nat → Int) (rc : Int) (z : Zert) : Option (Int × Zert) :=
  if z.cuXgqRingStart % 4 ≠ 0 ∨ z.cuXgqRingSize % 4 ≠ 0 then none
  else if z.slotNum < ZERT_CU_XGQ_MIN_SLOTS then some (-E2BIG, z)
  else some (enableFrom make z.xgqRingSize z.nxgqs 0 rc z)

def setCu (z : Zert) (d : Domain) (i idx : Nat) : Zert :=
  { z with cus := Function.update z.cus d (Function.update (z.cus d) i ⟨true, some idx⟩) }

/-- `assign idx i d` is what `zcu_xgq_assign_cu` returns for the device of queue `idx`. `none` is the
end in `BUG_ON`, or in `platform_get_drvdata` for a queue without a device. -/
def zertAssignCuXgqs (assign : Nat → Nat → Domain → Int) (z : Zert) (cu : Domain × Nat) :
    Option Zert :=
  if ∀ i < z.numCuXgqs, (z.cuXgqs i).pdev = false then some z
  else if (z.cus cu.1 cu.2).pdev = false then some z
  else
    let idx := cu.2 % z.numCuXgqs
    if (z.cus cu.1 cu.2).xgqIdx ≠ none then none
    else if (z.cuXgqs idx).pdev = false then none
    else if assign idx cu.2 cu.1 ≠ 0 then some z
    else some (z.setCu cu.1 cu.2 idx)

/-! ### The rings -/

def Enabled (z : Zert) (i : Nat) : Prop := i < z.numCuXgqs ∧ (z.cuXgqs i).pdev = true

def ring (z : Zert) (i : Nat) : Range := ⟨(z.cuXgqs i).ring, (z.cuXgqs i).ringSize⟩

/-- The rings of the enabled queues are apart, inside the area, and have room for their slots. -/
structure RingsRight (z : Zert) : Prop where
  apart : ∀ i j, z.Enabled i → z.Enabled j → i ≠ j → (z.ring i).Disjoint (z.ring j)
  inside : ∀ i, z.Enabled i → z.cuXgqRingStart ≤ (z.ring i).start ∧
    (z.ring i).start + (z.ring i).size ≤ z.cuXgqRingStart + z.cuXgqRingSize
  room : ∀ i, z.Enabled i → ∃ k, ZERT_CU_XGQ_MIN_SLOTS ≤ 2 ^ k ∧
    xgqRingLen (2 ^ k) (z.cuXgqs i).slotSize ≤ (z.ring i).size

end Zert

variable {z z' z'' : Zert} {make : Nat → Int} {assign : Nat → Nat → Domain → Int}
  {ringSize left i n : Nat} {rc : Int}

theorem halve_spec {size slotSz fuel k : Nat} (enough : 2 ^ k ≤ fuel) :
    halve size slotSz fuel (2 ^ k) = 0 ∨
      ∃ m, halve size slotSz fuel (2 ^ k) = 2 ^ m ∧ xgqRingLen (2 ^ m) slotSz ≤ size := by
  -- over the fuel; halving 1 gives 0, and there the loop ends
  induction fuel generalizing k with
  | zero => exact absurd enough (by simp)
  | succ fuel ih =>
    rw [halve]
    split
    next large =>
      cases k with
      | zero =>
        left
        cases fuel <;> simp [halve]
      | succ k =>
        rw [pow_succ, Nat.mul_div_cancel _ two_pos]
        refine ih ?_
        have positive := Nat.two_pow_pos k
        rw [pow_succ] at enough
        omega
    next fits =>
      right
      refine ⟨k, rfl, ?_⟩
      have positive := Nat.two_pow_pos k
      simp only [ne_eq, not_and, not_lt, gt_iff_lt] at fits
      exact fits (by omega)

theorem slotNum_spec (z : Zert) (enough : ZERT_CU_XGQ_MIN_SLOTS ≤ z.slotNum) :
    ∃ k, z.slotNum = 2 ^ k ∧ z.xgqRingSize ≤ z.cuXgqRingSize := by
  have spec := @halve_spec z.cuXgqRingSize CTRL_XGQ_CU_SLOT_SIZE ZERT_CU_XGQ_MAX_SLOTS 7 le_rfl
  rcases spec with zero | ⟨k, power, fits⟩
  · have same : z.slotNum = 0 := zero
    rw [same] at enough
    exact absurd enough (by decide)
  · have same : z.slotNum = 2 ^ k := power
    exact ⟨k, same, by rw [Zert.xgqRingSize, same]; exact fits⟩

/-- The queue that the loop leaves behind at index `i`. -/
def enabledAt (z : Zert) (ringSize i : Nat) : CuXgq :=
  ⟨z.cuXgqRingStart + ringSize * i, ringSize, CTRL_XGQ_CU_SLOT_SIZE, true⟩

theorem enableFrom_spec (ok : z.enableFrom make ringSize left i rc = (0, z')) :
    z' = { z with cuXgqs := z'.cuXgqs } ∧ ∀ j,
      z'.cuXgqs j = if i ≤ j ∧ j < i + left then enabledAt z ringSize j else z.cuXgqs j := by
  induction left generalizing i rc z with
  | zero =>
    cases ok
    refine ⟨rfl, fun j => ?_⟩
    rw [if_neg (by omega)]
  | succ left ih =>
    rw [Zert.enableFrom] at ok
    split at ok
    next failed =>
      exact absurd (congrArg Prod.fst ok) failed
    next =>
      obtain ⟨frame, later⟩ := ih ok
      refine ⟨frame, fun j => ?_⟩
      rw [later j]
      by_cases here : j = i
      · subst here
        rw [if_neg (by omega), if_pos (by omega)]
        exact Function.update_self ..
      · have same : (z.setXgq i (enabledAt z ringSize i)).cuXgqs j = z.cuXgqs j :=
          Function.update_of_ne here ..
        by_cases behind : i + 1 ≤ j ∧ j < i + 1 + left
        · rw [if_pos behind, if_pos (by omega)]
          rfl
        · rw [if_neg behind, if_neg (by omega)]
          exact same

/-- What a successful creation leaves of the control device. -/
structure Created (z z' : Zert) : Prop where
  frame : z' = { z with cuXgqs := z'.cuXgqs }
  enabled : ∀ j, z'.Enabled j ↔ j < z.nxgqs
  queue : ∀ j < z.nxgqs, z'.cuXgqs j = enabledAt z z.xgqRingSize j
  slots : ZERT_CU_XGQ_MIN_SLOTS ≤ z.slotNum

theorem created_of_ok (fresh : ∀ i, (z.cuXgqs i).pdev = false)
    (ok : z.zertCreateCuXgqs make rc = some (0, z')) : Created z z' := by
  rw [Zert.zertCreateCuXgqs] at ok
  split_ifs at ok with unaligned few
  · cases ok
  · obtain ⟨frame, queues⟩ := enableFrom_spec (Option.some.inj ok)
    have all : z.nxgqs ≤ z.numCuXgqs := min_le_right ..
    refine ⟨frame, fun j => ?_, fun j lt => ?_, not_lt.mp few⟩
    · have same : z'.numCuXgqs = z.numCuXgqs := by rw [frame]
      rw [Zert.Enabled, same, queues j]
      by_cases lt : j < z.nxgqs
      · rw [if_pos (by omega)]
        exact ⟨fun _ => lt, fun _ => ⟨lt.trans_le all, rfl⟩⟩
      · rw [if_neg (by omega), fresh j]
        simp [lt]
    · rw [queues j, if_pos (by omega)]

theorem Created.ringsRight (created : Created z z') : z'.RingsRight := by
  obtain ⟨k, power, fits⟩ := slotNum_spec z created.slots
  have ring (i : Nat) (lt : i < z.nxgqs) :
      z'.ring i = ⟨z.cuXgqRingStart + z.xgqRingSize * i, z.xgqRingSize⟩ := by
    rw [Zert.ring, created.queue i lt]
    rfl
  refine ⟨fun i j left right ne => ?_, fun i enabled => ?_, fun i enabled => ?_⟩
  · rw [ring i ((created.enabled i).mp left), ring j ((created.enabled j).mp right)]
    intro a both
    simp only [Range.Has] at both
    have step {i j : Nat} (lt : i < j) : z.xgqRingSize * i + z.xgqRingSize ≤ z.xgqRingSize * j :=
      Nat.mul_le_mul_left z.xgqRingSize lt
    rcases Nat.lt_or_gt_of_ne ne with lt | lt
    · have := step lt
      omega
    · have := step lt
      omega
  · have lt := (created.enabled i).mp enabled
    rw [ring i lt, created.frame]
    have count : i + 1 ≤ z.cuXgqRingSize / z.xgqRingSize := Nat.lt_of_lt_of_le lt (min_le_left ..)
    have area := Nat.mul_le_of_le_div _ _ _ count
    rw [Nat.add_mul, Nat.mul_comm i] at area
    dsimp only
    omega
  · have lt := (created.enabled i).mp enabled
    refine ⟨k, power ▸ created.slots, ?_⟩
    rw [ring i lt, created.queue i lt, ← power]
    exact le_rfl

/-! ### The assignment -/

/-- The CU has a queue, and the queue is enabled. -/
def Assigned (z : Zert) (cu : Domain × Nat) : Prop :=
  ∃ idx, (z.cus cu.1 cu.2).xgqIdx = some idx ∧ z.Enabled idx

variable {num : Nat} {cu other : Domain × Nat} {cus : List (Domain × Nat)}

/-- The first `n` of `num` queues are enabled. -/
def EnabledBelow (z : Zert) (num n : Nat) : Prop :=
  z.numCuXgqs = num ∧ ∀ i, z.Enabled i ↔ i < n

theorem Created.enabledBelow (created : Created z z') : EnabledBelow z' z.numCuXgqs z.nxgqs :=
  ⟨by rw [created.frame], created.enabled⟩

theorem zertAssignCuXgqs_frame (ok : z.zertAssignCuXgqs assign cu = some z') :
    z'.numCuXgqs = z.numCuXgqs ∧ z'.cuXgqs = z.cuXgqs ∧
      ∀ other, other ≠ cu → z'.cus other.1 other.2 = z.cus other.1 other.2 := by
  simp only [Zert.zertAssignCuXgqs] at ok
  split_ifs at ok
  · cases ok
    exact ⟨rfl, rfl, fun _ _ => rfl⟩
  · cases ok
    exact ⟨rfl, rfl, fun _ _ => rfl⟩
  · cases ok
    exact ⟨rfl, rfl, fun _ _ => rfl⟩
  · cases ok
    refine ⟨rfl, rfl, fun other ne => ?_⟩
    simp only [Zert.setCu]
    by_cases domain : other.1 = cu.1
    · rw [domain, Function.update_self, Function.update_of_ne]
      exact fun index => ne (Prod.ext domain index)
    · rw [Function.update_of_ne domain]

theorem assigned_congr (ok : z.zertAssignCuXgqs assign cu = some z') (ne : other ≠ cu) :
    Assigned z' other ↔ Assigned z other := by
  obtain ⟨num, queues, cus⟩ := zertAssignCuXgqs_frame ok
  simp only [Assigned, Zert.Enabled, num, queues, cus other ne]

theorem EnabledBelow.keep (below : EnabledBelow z num n)
    (ok : z.zertAssignCuXgqs assign cu = some z') : EnabledBelow z' num n := by
  obtain ⟨same, queues, -⟩ := zertAssignCuXgqs_frame ok
  simpa only [EnabledBelow, Zert.Enabled, same, queues] using below

theorem zertAssignCuXgqs_iff (assign : Nat → Nat → Domain → Int) (below : EnabledBelow z num n)
    (all : n ≤ num) (waits : z.cus cu.1 cu.2 = ⟨true, none⟩) :
    (∃ z', z.zertAssignCuXgqs assign cu = some z' ∧ Assigned z' cu) ↔
      cu.2 % num < n ∧ assign (cu.2 % num) cu.2 cu.1 = 0 := by
  obtain ⟨rfl, enabled⟩ := below
  have unassigned : ¬ Assigned z cu := by
    rintro ⟨idx, has, -⟩
    rw [waits] at has
    cases has
  have device (i : Nat) (lt : i < z.numCuXgqs) : (z.cuXgqs i).pdev = true ↔ i < n :=
    ⟨fun on => (enabled i).mp ⟨lt, on⟩, fun less => ((enabled i).mpr less).2⟩
  simp only [Zert.zertAssignCuXgqs, waits, reduceCtorEq, ne_eq, not_true_eq_false, if_false]
  split_ifs with none off done
  · constructor
    · rintro ⟨_, same, assigned⟩
      cases same
      exact absurd assigned unassigned
    · rintro ⟨lt, -⟩
      have on := ((enabled _).mpr lt).2
      rw [none _ (lt.trans_le all)] at on
      cases on
  · constructor
    · rintro ⟨_, stuck, -⟩
      cases stuck
    · rintro ⟨lt, -⟩
      rw [((enabled _).mpr lt).2] at off
      cases off
  · have positive : 0 < z.numCuXgqs := by
      by_contra zero
      exact none fun i lt => absurd lt (by omega)
    have lt := (device _ (Nat.mod_lt cu.2 positive)).mp (eq_true_of_ne_false off)
    refine ⟨fun _ => ⟨lt, done⟩, fun _ => ⟨_, rfl, _, ?_, (enabled _).mpr lt⟩⟩
    simp only [Zert.setCu, Function.update_self]
  · constructor
    · rintro ⟨_, same, assigned⟩
      cases same
      exact absurd assigned unassigned
    · exact fun right => absurd right.2 done

theorem run_assigned_congr (ran : run (Zert.zertAssignCuXgqs assign) z cus = some z')
    (new : other ∉ cus) : Assigned z' other ↔ Assigned z other := by
  induction cus generalizing z with
  | nil =>
    cases ran
    rfl
  | cons cu cus ih =>
    obtain ⟨mid, first, rest⟩ := (run_cons_iff ..).mp ran
    rw [List.mem_cons, not_or] at new
    rw [ih rest new.2, assigned_congr first new.1]

theorem run_assigned_iff (below : EnabledBelow z num n) (all : n ≤ num) (distinct : cus.Nodup)
    (wait : ∀ cu ∈ cus, z.cus cu.1 cu.2 = ⟨true, none⟩) :
    (∃ z', run (Zert.zertAssignCuXgqs assign) z cus = some z' ∧ ∀ cu ∈ cus, Assigned z' cu) ↔
      ∀ cu ∈ cus, cu.2 % num < n ∧ assign (cu.2 % num) cu.2 cu.1 = 0 := by
  induction cus generalizing z with
  | nil => simp
  | cons cu cus ih =>
    have one := zertAssignCuXgqs_iff assign below all (wait cu List.mem_cons_self)
    obtain ⟨new, distinct⟩ := List.nodup_cons.mp distinct
    -- the other CUs wait as before
    have others {mid : Zert} (first : z.zertAssignCuXgqs assign cu = some mid) :
        (∃ z', run (Zert.zertAssignCuXgqs assign) mid cus = some z' ∧ ∀ cu ∈ cus, Assigned z' cu) ↔
          ∀ cu ∈ cus, cu.2 % num < n ∧ assign (cu.2 % num) cu.2 cu.1 = 0 := by
      refine ih (below.keep first) distinct fun other member => ?_
      rw [(zertAssignCuXgqs_frame first).2.2 other (fun same => new (same ▸ member))]
      exact wait other (List.mem_cons_of_mem _ member)
    rw [List.forall_mem_cons, ← one]
    constructor
    · rintro ⟨z', ran, assigned⟩
      obtain ⟨mid, first, rest⟩ := (run_cons_iff ..).mp ran
      rw [List.forall_mem_cons] at assigned
      exact ⟨⟨mid, first, (run_assigned_congr rest new).mp assigned.1⟩,
        (others first).mp ⟨z', rest, assigned.2⟩⟩
    · rintro ⟨⟨mid, first, assigned⟩, later⟩
      obtain ⟨z', rest, all⟩ := (others first).mpr later
      refine ⟨z', (run_cons_iff ..).mpr ⟨mid, first, rest⟩, List.forall_mem_cons.mpr ⟨?_, all⟩⟩
      exact (run_assigned_congr rest new).mpr assigned

/-- The rings are always right. The CUs all get an enabled queue if and only if none of them falls to
a queue that was not enabled for lack of room and no device refuses its CU. -/
theorem queues_right_and_assigned_iff (z z' : Zert) (make : Nat → Int) (rc : Int)
    (assign : Nat → Nat → Domain → Int) (fresh : ∀ i, (z.cuXgqs i).pdev = false)
    (created : z.zertCreateCuXgqs make rc = some (0, z')) (cus : List (Domain × Nat))
    (distinct : cus.Nodup) (wait : ∀ cu ∈ cus, z.cus cu.1 cu.2 = ⟨true, none⟩) :
    z'.RingsRight ∧
      ((∃ z'', run (Zert.zertAssignCuXgqs assign) z' cus = some z'' ∧ ∀ cu ∈ cus, Assigned z'' cu) ↔
        ∀ cu ∈ cus, cu.2 % z.numCuXgqs < z.nxgqs ∧
          assign (cu.2 % z.numCuXgqs) cu.2 cu.1 = 0) := by
  have right := created_of_ok fresh created
  refine ⟨right.ringsRight, run_assigned_iff right.enabledBelow (min_le_right ..) distinct ?_⟩
  rw [right.frame]
  exact wait

/-- A ring area of the given size, `num` queues, and every CU there. -/
def fresh (size num : Nat) : Zert where
  cuXgqRingStart := 0
  cuXgqRingSize := size
  numCuXgqs := num
  cuXgqs _ := {}
  cus _ _ := ⟨true, none⟩

/-- There is room for two rings of 128 slots. -/
theorem two_queues_assigned :
    ∃ z', (fresh 1052760 2).zertCreateCuXgqs (fun _ => 0) 0 = some (0, z') ∧ z'.RingsRight ∧
      ∃ z'', run (Zert.zertAssignCuXgqs fun _ _ _ => 0) z' [(.pl, 0), (.ps, 5)] = some z'' ∧
        ∀ cu ∈ [(Domain.pl, 0), (.ps, 5)], Assigned z'' cu := by
  have right := queues_right_and_assigned_iff (fresh 1052760 2) _ (fun _ => 0) 0 (fun _ _ _ => 0)
    (fun _ => rfl) rfl [(.pl, 0), (.ps, 5)] (by decide) (fun _ _ => rfl)
  exact ⟨_, rfl, right.1, right.2.mpr (by decide)⟩

/-- With room for one ring of four slots and two queues, only the first queue is enabled, and the CU
with index 1 falls to the second. -/
theorem second_queue_missing :
    ∃ z', (fresh 16492 2).zertCreateCuXgqs (fun _ => 0) 0 = some (0, z') ∧
      (z'.cuXgqs 0).pdev = true ∧ z'.zertAssignCuXgqs (fun _ _ _ => 0) (.pl, 1) = none :=
  ⟨_, rfl, rfl, rfl⟩

end Xrt.Zocl.CtrlErt
