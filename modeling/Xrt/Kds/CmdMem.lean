import Xrt.Cu.FastAdapter
import Xrt.Errno
import Xrt.Kernel.FastAdapter

/-!
# Command memory of fast adapters

`kds_fa_assign_cmdmem` divides the command memory among the CUs with a fast adapter: each gets the same
number of slots, of the size of its own descriptor.
-/
namespace Xrt.Kds

open Lib
open Xrt.Cu (XrtCuFa)
open Kernel (Argument cuFaGetDescSize roundUpToNextPower2)

/-- `struct cmdmem_info`. -/
structure CmdMem where
  barPaddr : BitVec 64
  devPaddr : BitVec 64
  vaddr : Nat
  size : BitVec 32
  barFits : barPaddr.toNat + size.toNat ≤ 2 ^ 64
  devFits : devPaddr.toNat + size.toNat ≤ 2 ^ 64

/-- A CU with a fast adapter: the arguments of its kernel and its core. -/
structure FaCu where
  args : List Argument
  core : XrtCuFa

/-- An entry of `xcus`. -/
inductive KdsCu where
  | fa (cu : FaCu)
  | other

namespace FaCu

variable (cu : FaCu)

def slotSize : BitVec 32 := cuFaGetDescSize cu.args

def cfgUpdate (bar dev : BitVec 64) (vaddr : Nat) (numSlots : BitVec 32) : FaCu :=
  { cu with core := cu.core.xrtFaCfgUpdate bar dev vaddr cu.slotSize numSlots }

def region : Range := ⟨cu.core.paddr.toNat, cu.core.slotSz.toNat * cu.core.numSlots.toNat⟩

/-- The bytes of a descriptor. -/
def descBytes : Nat := Kernel.sizeofFaDescriptor + Kernel.entriesBytes
  (cu.args.filter fun arg => arg.name ≠ Kernel.nextDescriptorAddr ∧ arg.size ≠ 0)

end FaCu

/-- The first loop: it adds up the sizes and takes the old memory away. -/
def totalLoop : List (Option KdsCu) → BitVec 32 → BitVec 32 × List (Option KdsCu)
  | [], totalSz => (totalSz, [])
  | some (.fa cu) :: xcus, totalSz =>
    let rest := totalLoop xcus (totalSz + cu.slotSize)
    (rest.1, some (.fa (cu.cfgUpdate 0 0 0 0)) :: rest.2)
  | xcu :: xcus, totalSz =>
    let rest := totalLoop xcus totalSz
    (rest.1, xcu :: rest.2)

def assignLoop (numSlots : BitVec 32) :
    List (Option KdsCu) → BitVec 64 → BitVec 64 → Nat → List (Option KdsCu)
  | [], _, _, _ => []
  | some (.fa cu) :: xcus, bar, dev, vaddr =>
    let bytes := cu.slotSize.setWidth 64 * numSlots.setWidth 64
    some (.fa (cu.cfgUpdate bar dev vaddr numSlots))
      :: assignLoop numSlots xcus (bar + bytes) (dev + bytes) (vaddr + bytes.toNat)
  | xcu :: xcus, bar, dev, vaddr => xcu :: assignLoop numSlots xcus bar dev vaddr

/-- `none` is a division by zero. -/
def kdsFaAssignCmdmem (cmdmem : CmdMem) (xcus : List (Option KdsCu)) :
    Option (Int × List (Option KdsCu)) :=
  let total := totalLoop xcus 0
  let totalSz := roundUpToNextPower2 total.1
  if cmdmem.size < totalSz then some (-EINVAL, total.2)
  -- a sum of zero is not above any size
  else if totalSz = 0 then none
  else some (0, assignLoop (cmdmem.size / totalSz) total.2 cmdmem.barPaddr cmdmem.devPaddr cmdmem.vaddr)

/-- The CUs with a fast adapter. -/
def faCus (xcus : List (Option KdsCu)) : List FaCu :=
  xcus.filterMap fun
    | some (.fa cu) => some cu
    | _ => none

/-- A CU has memory, with slots of a power of two that its descriptors fit in. -/
structure FaCu.Placed (cu : FaCu) : Prop where
  mapped : cu.core.cmdmem ≠ none
  slots : 1 ≤ cu.core.numSlots.toNat
  power : ∃ k, cu.core.slotSz.toNat = 2 ^ k
  descriptor : cu.descBytes ≤ cu.core.slotSz.toNat

structure Assigned (cmdmem : CmdMem) (cus : List FaCu) : Prop where
  placed : ∀ cu ∈ cus, cu.Placed
  disjoint : (cus.map FaCu.region).Pairwise Range.Disjoint
  inside : ∀ cu ∈ cus, cmdmem.devPaddr.toNat ≤ cu.region.start
    ∧ cu.region.start + cu.region.size ≤ cmdmem.devPaddr.toNat + cmdmem.size.toNat

/-- There is a result, which is an error or an assignment. -/
def AssignRight (cmdmem : CmdMem) (xcus : List (Option KdsCu)) : Prop :=
  ∃ ret after, kdsFaAssignCmdmem cmdmem xcus = some (ret, after)
    ∧ (ret ≠ 0 ∨ Assigned cmdmem (faCus after))

def faTotal (cus : List FaCu) : Nat := (cus.map fun cu => cu.slotSize.toNat).sum

/-! ### The loops on the CUs that they are about -/

def assignFa (numSlots : BitVec 32) : List FaCu → BitVec 64 → BitVec 64 → Nat → List FaCu
  | [], _, _, _ => []
  | cu :: cus, bar, dev, vaddr =>
    let bytes := cu.slotSize.setWidth 64 * numSlots.setWidth 64
    cu.cfgUpdate bar dev vaddr numSlots
      :: assignFa numSlots cus (bar + bytes) (dev + bytes) (vaddr + bytes.toNat)

theorem faCus_assignLoop (numSlots : BitVec 32) (xcus : List (Option KdsCu)) (bar dev : BitVec 64)
    (vaddr : Nat) : faCus (assignLoop numSlots xcus bar dev vaddr)
      = assignFa numSlots (faCus xcus) bar dev vaddr := by
  induction xcus generalizing bar dev vaddr with
  | nil => rfl
  | cons xcu xcus ih =>
    match xcu with
    | some (.fa cu) => exact congrArg (cu.cfgUpdate bar dev vaddr numSlots :: ·) (ih _ _ _)
    | some .other => exact ih bar dev vaddr
    | none => exact ih bar dev vaddr

theorem totalLoop_fst (xcus : List (Option KdsCu)) (totalSz : BitVec 32) :
    (totalLoop xcus totalSz).1 = totalSz + BitVec.ofNat 32 (faTotal (faCus xcus)) := by
  induction xcus generalizing totalSz with
  | nil => simp [totalLoop, faCus, faTotal]
  | cons xcu xcus ih =>
    match xcu with
    | some (.fa cu) =>
      have more : faTotal (faCus (some (.fa cu) :: xcus))
          = cu.slotSize.toNat + faTotal (faCus xcus) := rfl
      rw [totalLoop, ih, more, BitVec.ofNat_add, BitVec.ofNat_toNat, BitVec.setWidth_eq,
        BitVec.add_assoc]
    | some .other => exact ih totalSz
    | none => exact ih totalSz

theorem faCus_totalLoop (xcus : List (Option KdsCu)) (totalSz : BitVec 32) :
    faCus (totalLoop xcus totalSz).2 = (faCus xcus).map (·.cfgUpdate 0 0 0 0) := by
  induction xcus generalizing totalSz with
  | nil => rfl
  | cons xcu xcus ih =>
    match xcu with
    | some (.fa cu) => exact congrArg (cu.cfgUpdate 0 0 0 0 :: ·) (ih _)
    | some .other => exact ih totalSz
    | none => exact ih totalSz

section Sizes

variable {cu : FaCu}

theorem descSizeLoop_filter (args : List Argument) (size : BitVec 32) :
    Kernel.descSizeLoop args size = Kernel.descSizeLoop
      (args.filter fun arg => arg.name ≠ Kernel.nextDescriptorAddr ∧ arg.size ≠ 0) size := by
  induction args generalizing size with
  | nil => rfl
  | cons arg args ih =>
    by_cases skipped : arg.name = Kernel.nextDescriptorAddr ∨ arg.size = 0
    · have dropped : ¬ (arg.name ≠ Kernel.nextDescriptorAddr ∧ arg.size ≠ 0) := by tauto
      rw [Kernel.descSizeLoop, if_pos skipped, List.filter_cons_of_neg (by simpa using dropped), ih]
    · have counted : arg.name ≠ Kernel.nextDescriptorAddr ∧ arg.size ≠ 0 := by tauto
      rw [Kernel.descSizeLoop, if_neg skipped, List.filter_cons_of_pos (by simpa using counted),
        Kernel.descSizeLoop, if_neg skipped, ih]

theorem FaCu.slotSize_eq (cu : FaCu) :
    cu.slotSize = roundUpToNextPower2 (BitVec.ofNat 32 cu.descBytes) := by
  rw [FaCu.slotSize, cuFaGetDescSize, descSizeLoop_filter, Kernel.descSizeLoop_eq, ← BitVec.ofNat_add,
    FaCu.descBytes]
  · intro arg member
    exact (of_decide_eq_true (List.mem_filter.mp member).2).1
  · intro arg member
    exact (of_decide_eq_true (List.mem_filter.mp member).2).2

theorem FaCu.slotSize_le (cu : FaCu) : cu.slotSize.toNat ≤ 2 ^ 31 := by
  rw [cu.slotSize_eq]
  exact Kernel.roundUpToNextPower2_le _

theorem FaCu.descBytes_pos (cu : FaCu) : 0 < cu.descBytes :=
  Nat.lt_of_lt_of_le (by decide : 0 < Kernel.sizeofFaDescriptor) (Nat.le_add_right _ _)

theorem FaCu.slotSize_spec (small : cu.descBytes ≤ 2 ^ 31) :
    cu.descBytes ≤ cu.slotSize.toNat ∧ ∃ k, cu.slotSize.toNat = 2 ^ k := by
  have value : (BitVec.ofNat 32 cu.descBytes).toNat = cu.descBytes := by
    rw [BitVec.toNat_ofNat, Nat.mod_eq_of_lt (by omega)]
  have positive := cu.descBytes_pos
  rw [cu.slotSize_eq]
  constructor
  · have least := Kernel.le_roundUpToNextPower2 (by rwa [value]) (by rwa [value])
    rwa [value] at least
  · exact Kernel.roundUpToNextPower2_pow (by rwa [value]) (by rwa [value])

theorem widened_mul (a b : BitVec 32) :
    a.setWidth 64 * b.setWidth 64 = BitVec.ofNat 64 (a.toNat * b.toNat) := by
  apply BitVec.eq_of_toNat_eq
  have left := a.isLt
  have right := b.isLt
  rw [BitVec.toNat_mul, BitVec.toNat_setWidth, BitVec.toNat_setWidth, BitVec.toNat_ofNat,
    Nat.mod_eq_of_lt (by omega : a.toNat < 2 ^ 64), Nat.mod_eq_of_lt (by omega : b.toNat < 2 ^ 64)]

end Sizes

/-! ### What the second loop assigns -/

section Assign

variable {numSlots : BitVec 32} {cus : List FaCu} {bar dev : BitVec 64} {vaddr : Nat}

theorem FaCu.cfgUpdate_core {cu : FaCu} (mapped : bar ≠ 0) :
    (cu.cfgUpdate bar dev vaddr numSlots).core.cmdmem = some vaddr
      ∧ (cu.cfgUpdate bar dev vaddr numSlots).core.paddr = dev
      ∧ (cu.cfgUpdate bar dev vaddr numSlots).core.slotSz = cu.slotSize
      ∧ (cu.cfgUpdate bar dev vaddr numSlots).core.numSlots = numSlots := by
  simp only [FaCu.cfgUpdate, XrtCuFa.xrtFaCfgUpdate, if_neg mapped, and_self]

theorem FaCu.cfgUpdate_zero (cu : FaCu) : (cu.cfgUpdate 0 dev vaddr numSlots).core.cmdmem = none := by
  simp [FaCu.cfgUpdate, XrtCuFa.xrtFaCfgUpdate]

theorem faTotal_cons (cu : FaCu) (cus : List FaCu) :
    faTotal (cu :: cus) = cu.slotSize.toNat + faTotal cus := by
  rw [faTotal, List.map_cons, List.sum_cons, ← faTotal]

/-- As long as the addresses do not wrap, each CU begins where the one before it ends. -/
theorem assignFa_tiles (slots : 0 < numSlots.toNat) (small : ∀ cu ∈ cus, cu.descBytes ≤ 2 ^ 31)
    {barPos devPos : Nat} (mapped : 0 < barPos) (barFits : barPos + faTotal cus * numSlots.toNat ≤ 2 ^ 64)
    (devFits : devPos + faTotal cus * numSlots.toNat ≤ 2 ^ 64) :
    Tiles ((assignFa numSlots cus (BitVec.ofNat 64 barPos) (BitVec.ofNat 64 devPos) vaddr).map
        FaCu.region) ⟨devPos, faTotal cus * numSlots.toNat⟩
      ∧ ∀ cu ∈ assignFa numSlots cus (BitVec.ofNat 64 barPos) (BitVec.ofNat 64 devPos) vaddr,
        cu.Placed := by
  induction cus generalizing barPos devPos vaddr with
  | nil =>
    rw [show faTotal [] = 0 from rfl, Nat.zero_mul]
    exact ⟨tiles_nil devPos, by simp [assignFa]⟩
  | cons cu cus ih =>
    obtain ⟨descriptor, power⟩ := FaCu.slotSize_spec (small cu List.mem_cons_self)
    have positive : 0 < cu.slotSize.toNat * numSlots.toNat :=
      Nat.mul_pos (cu.descBytes_pos.trans_le descriptor) slots
    rw [faTotal_cons, Nat.add_mul] at barFits devFits ⊢
    have barValue : BitVec.ofNat 64 barPos ≠ 0 := by
      intro zero
      have value := congrArg BitVec.toNat zero
      rw [BitVec.toNat_ofNat, Nat.mod_eq_of_lt (by omega)] at value
      exact mapped.ne' value
    obtain ⟨core, paddr, slotSz, num⟩ := @FaCu.cfgUpdate_core numSlots _ (BitVec.ofNat 64 devPos) vaddr
      cu barValue
    have first : (cu.cfgUpdate (BitVec.ofNat 64 barPos) (BitVec.ofNat 64 devPos) vaddr
        numSlots).region = ⟨devPos, cu.slotSize.toNat * numSlots.toNat⟩ := by
      rw [FaCu.region, paddr, slotSz, num, BitVec.toNat_ofNat, Nat.mod_eq_of_lt (by omega)]
    obtain ⟨tiles, placed⟩ := @ih (vaddr + (cu.slotSize.setWidth 64 * numSlots.setWidth 64).toNat)
      (fun other member => small other (List.mem_cons_of_mem cu member))
      (barPos + cu.slotSize.toNat * numSlots.toNat) (devPos + cu.slotSize.toNat * numSlots.toNat)
      (by omega) (by omega) (by omega)
    simp only [assignFa]
    rw [widened_mul, ← BitVec.ofNat_add, ← BitVec.ofNat_add, ← widened_mul]
    constructor
    · rw [List.map_cons, first]
      exact (tiles_singleton _).append tiles
    · rintro other (_ | ⟨_, member⟩)
      · exact ⟨by simp [core], by rwa [num], by rwa [slotSz], by rwa [slotSz]⟩
      · exact placed other member

/-- The regions of CUs that all got one have the sizes that were asked for. -/
theorem sum_region_size (mapped : ∀ cu ∈ assignFa numSlots cus bar dev vaddr, cu.core.cmdmem ≠ none) :
    (((assignFa numSlots cus bar dev vaddr).map FaCu.region).map Range.size).sum
      = faTotal cus * numSlots.toNat := by
  induction cus generalizing bar dev vaddr with
  | nil => simp [assignFa, faTotal]
  | cons cu cus ih =>
    simp only [assignFa] at mapped ⊢
    have barValue : bar ≠ 0 := by
      rintro rfl
      exact mapped _ List.mem_cons_self cu.cfgUpdate_zero
    obtain ⟨-, -, slotSz, num⟩ := @FaCu.cfgUpdate_core numSlots bar dev vaddr cu barValue
    rw [List.map_cons, List.map_cons, List.sum_cons, FaCu.region, slotSz, num,
      ih fun other member => mapped other (List.mem_cons_of_mem _ member), faTotal_cons, Nat.add_mul]

theorem exists_assignFa {cu : FaCu} (member : cu ∈ cus) :
    ∃ assigned ∈ assignFa numSlots cus bar dev vaddr, assigned.descBytes = cu.descBytes
      ∧ assigned.core.slotSz.toNat ≤ 2 ^ 31 := by
  induction cus generalizing bar dev vaddr with
  | nil => cases member
  | cons first cus ih =>
    rcases List.mem_cons.mp member with rfl | later
    · refine ⟨_, List.mem_cons_self, rfl, ?_⟩
      by_cases mapped : bar = 0
      · simp [FaCu.cfgUpdate, XrtCuFa.xrtFaCfgUpdate, mapped]
      · rw [(@FaCu.cfgUpdate_core numSlots bar dev vaddr cu mapped).2.2.1]
        exact cu.slotSize_le
    · obtain ⟨assigned, member, facts⟩ := ih later
      exact ⟨assigned, List.mem_cons_of_mem _ member, facts⟩

theorem assignFa_unmapped (some : cus ≠ []) :
    ∃ cu ∈ assignFa numSlots cus 0 dev vaddr, cu.core.cmdmem = none := by
  obtain ⟨cu, rest, rfl⟩ := List.exists_cons_of_ne_nil some
  exact ⟨_, List.mem_cons_self, cu.cfgUpdate_zero⟩

end Assign

/-! ### The whole function -/

variable (cmdmem : CmdMem) (xcus : List (Option KdsCu))

/-- The memory for one slot of each CU, rounded up. -/
def totalSz : BitVec 32 := roundUpToNextPower2 (BitVec.ofNat 32 (faTotal (faCus xcus)))

/-- The sum of the sizes has 32 bits, and so has the size of a slot; an address of zero would mean that
the memory is taken away. -/
structure MemoryFits : Prop where
  mapped : cmdmem.barPaddr ≠ 0
  total : faTotal (faCus xcus) < 2 ^ 32
  descriptors : ∀ cu ∈ faCus xcus, cu.descBytes ≤ 2 ^ 31

variable {cmdmem xcus}

/-- The CUs after the release of the old memory. -/
def released (xcus : List (Option KdsCu)) : List FaCu := (faCus xcus).map (·.cfgUpdate 0 0 0 0)

theorem faTotal_released (xcus : List (Option KdsCu)) : faTotal (released xcus) = faTotal (faCus xcus) := by
  rw [released, faTotal, List.map_map]
  rfl

theorem kdsFaAssignCmdmem_eq (cmdmem : CmdMem) (xcus : List (Option KdsCu)) :
    kdsFaAssignCmdmem cmdmem xcus
      = if cmdmem.size < totalSz xcus then some (-EINVAL, (totalLoop xcus 0).2)
        else if totalSz xcus = 0 then none
        else some (0, assignLoop (cmdmem.size / totalSz xcus) (totalLoop xcus 0).2 cmdmem.barPaddr
          cmdmem.devPaddr cmdmem.vaddr) := by
  have sum : (totalLoop xcus 0).1 = BitVec.ofNat 32 (faTotal (faCus xcus)) := by
    rw [totalLoop_fst]
    exact BitVec.zero_add _
  simp only [kdsFaAssignCmdmem, sum]
  rfl

theorem toNat_pos {w : Nat} {x : BitVec w} (nonzero : x ≠ 0) : 0 < x.toNat :=
  Nat.pos_of_ne_zero fun zero => nonzero (BitVec.eq_of_toNat_eq (by simpa using zero))

theorem numSlots_pos (nonzero : totalSz xcus ≠ 0) (enough : totalSz xcus ≤ cmdmem.size) :
    0 < (cmdmem.size / totalSz xcus).toNat := by
  rw [BitVec.toNat_udiv]
  exact Nat.div_pos (BitVec.le_def.mp enough) (toNat_pos nonzero)

/-- The rounded sum is not zero only if the sum, in 32 bits, is between one and 2³¹. -/
theorem faTotal_le_totalSz (nonzero : totalSz xcus ≠ 0) (small : faTotal (faCus xcus) < 2 ^ 32) :
    faTotal (faCus xcus) ≤ (totalSz xcus).toNat := by
  have value : (BitVec.ofNat 32 (faTotal (faCus xcus))).toNat = faTotal (faCus xcus) := by
    rw [BitVec.toNat_ofNat, Nat.mod_eq_of_lt small]
  rcases Nat.eq_zero_or_pos (faTotal (faCus xcus)) with none | positive
  · omega
  · have half : faTotal (faCus xcus) ≤ 2 ^ 31 := by
      by_contra high
      exact nonzero (Kernel.roundUpToNextPower2_high (by omega))
    have least := Kernel.le_roundUpToNextPower2 (by rwa [value]) (by rwa [value])
    rwa [value] at least

theorem assigned_of_fits (nonzero : totalSz xcus ≠ 0) (enough : totalSz xcus ≤ cmdmem.size)
    (fits : MemoryFits cmdmem xcus) :
    Assigned cmdmem (assignFa (cmdmem.size / totalSz xcus) (released xcus) cmdmem.barPaddr
      cmdmem.devPaddr cmdmem.vaddr) := by
  have slots := numSlots_pos nonzero enough
  -- the sum is at most the rounded sum, and that many slots of it fit
  have used : faTotal (released xcus) * (cmdmem.size / totalSz xcus).toNat ≤ cmdmem.size.toNat := by
    rw [faTotal_released, BitVec.toNat_udiv]
    exact (Nat.mul_le_mul_right _ (faTotal_le_totalSz nonzero fits.total)).trans
      (Nat.mul_div_le _ _)
  have small : ∀ cu ∈ released xcus, cu.descBytes ≤ 2 ^ 31 := by
    intro cu member
    obtain ⟨old, oldMember, rfl⟩ := List.mem_map.mp member
    exact fits.descriptors old oldMember
  have barPos := toNat_pos fits.mapped
  have barFits := cmdmem.barFits
  have devFits := cmdmem.devFits
  obtain ⟨tiles, placed⟩ := @assignFa_tiles _ _ cmdmem.vaddr slots small cmdmem.barPaddr.toNat
    cmdmem.devPaddr.toNat barPos (by omega) (by omega)
  rw [BitVec.ofNat_toNat, BitVec.ofNat_toNat, BitVec.setWidth_eq, BitVec.setWidth_eq] at tiles placed
  refine ⟨placed, (tiles_iff.mp tiles).1, fun cu member => ?_⟩
  have sized : 0 < cu.region.size :=
    Nat.mul_pos (cu.descBytes_pos.trans_le (placed cu member).descriptor) (placed cu member).slots
  have inside := tiles.inside (List.mem_map_of_mem member) sized
  simp only at inside
  omega

theorem fits_of_assigned (nonzero : totalSz xcus ≠ 0) (enough : totalSz xcus ≤ cmdmem.size)
    (assigned : Assigned cmdmem (assignFa (cmdmem.size / totalSz xcus) (released xcus) cmdmem.barPaddr
      cmdmem.devPaddr cmdmem.vaddr)) : MemoryFits cmdmem xcus where
  mapped := by
    intro zero
    have some : released xcus ≠ [] := by
      intro none
      have nothing := faTotal_released xcus
      rw [none] at nothing
      apply nonzero
      rw [totalSz, ← nothing]
      rfl
    rw [zero] at assigned
    obtain ⟨cu, member, unmapped⟩ := assignFa_unmapped some
    exact (assigned.placed cu member).mapped unmapped
  total := by
    by_contra large
    have sum := sum_region_size fun cu member => (assigned.placed cu member).mapped
    have bound := @sum_size_le ⟨cmdmem.devPaddr.toNat, cmdmem.size.toNat⟩ _ assigned.disjoint (by
      intro region member
      obtain ⟨cu, own, rfl⟩ := List.mem_map.mp member
      exact assigned.inside cu own)
    rw [sum, faTotal_released] at bound
    have size := cmdmem.size.isLt
    have least := Nat.le_mul_of_pos_right (faTotal (faCus xcus)) (numSlots_pos nonzero enough)
    simp only at bound
    omega
  descriptors := by
    intro cu member
    obtain ⟨after, member, same, slotSz⟩ := exists_assignFa (List.mem_map_of_mem member)
    have descriptor := (assigned.placed after member).descriptor
    rw [same] at descriptor
    exact descriptor.trans slotSz

/-- What a CU gets is a memory that its core can run with. -/
theorem Assigned.memory {cus : List FaCu} (assigned : Assigned cmdmem cus) {cu : FaCu} (member : cu ∈ cus)
    (mapped : cmdmem.barPaddr ≠ 0) : ∃ memory : Xrt.Cu.FaMemory, memory.dev = cu.core.paddr
      ∧ memory.slotSz = cu.core.slotSz ∧ memory.numSlots = cu.core.numSlots := by
  obtain ⟨low, high⟩ := assigned.inside cu member
  have placed := assigned.placed cu member
  have descriptor : 20 ≤ cu.core.slotSz.toNat := (Nat.le_add_right 20 _).trans placed.descriptor
  have size := cmdmem.size.isLt
  have fits : cu.core.slotSz.toNat * cu.core.numSlots.toNat < 2 ^ 32 := by
    simp only [FaCu.region] at low high
    omega
  exact ⟨⟨cmdmem.barPaddr, cu.core.paddr, 0, cu.core.slotSz, cu.core.numSlots, mapped, placed.slots,
    by omega, fits⟩, rfl, rfl, rfl⟩

/-- The division is by zero if no CU has a fast adapter, or if the sum of the sizes is zero or above
2³¹ in 32 bits. Otherwise a memory that is too small is an error, and one that is not is divided as it
should be if nothing has wrapped. -/
theorem kdsFaAssignCmdmem_right_iff (cmdmem : CmdMem) (xcus : List (Option KdsCu)) :
    AssignRight cmdmem xcus
      ↔ totalSz xcus ≠ 0 ∧ (cmdmem.size < totalSz xcus ∨ MemoryFits cmdmem xcus) := by
  rw [AssignRight, kdsFaAssignCmdmem_eq]
  by_cases few : cmdmem.size < totalSz xcus
  · have nonzero : totalSz xcus ≠ 0 := by
      intro zero
      rw [zero] at few
      exact absurd few (by simp)
    rw [if_pos few]
    exact iff_of_true ⟨_, _, rfl, Or.inl (by decide)⟩ ⟨nonzero, Or.inl few⟩
  · rw [if_neg few]
    by_cases zero : totalSz xcus = 0
    · rw [if_pos zero]
      simp [zero]
    · have after : faCus (assignLoop (cmdmem.size / totalSz xcus) (totalLoop xcus 0).2 cmdmem.barPaddr
          cmdmem.devPaddr cmdmem.vaddr) = assignFa (cmdmem.size / totalSz xcus) (released xcus)
            cmdmem.barPaddr cmdmem.devPaddr cmdmem.vaddr := by
        rw [faCus_assignLoop, faCus_totalLoop, released]
      have enough : totalSz xcus ≤ cmdmem.size := BitVec.not_lt.mp few
      rw [if_neg zero]
      constructor
      · rintro ⟨ret, xcus', result, outcome⟩
        cases result
        rcases outcome with failed | assigned
        · exact absurd rfl failed
        · rw [after] at assigned
          exact ⟨zero, Or.inr (fits_of_assigned zero enough assigned)⟩
      · rintro ⟨-, less | fits⟩
        · exact absurd less few
        · refine ⟨_, _, rfl, Or.inr ?_⟩
          rw [after]
          exact assigned_of_fits zero enough fits

/-- A command memory of 4 KiB. -/
def smallMemory : CmdMem where
  barPaddr := 0x10000
  devPaddr := 0x20000
  vaddr := 0
  size := 4096
  barFits := by decide
  devFits := by decide

/-- Without a CU to divide the memory among, the division is by zero. -/
theorem no_fa_divides_by_zero :
    kdsFaAssignCmdmem smallMemory [some .other] = none ∧ ¬ AssignRight smallMemory [some .other] := by
  have fault : kdsFaAssignCmdmem smallMemory [some .other] = none := by decide
  refine ⟨fault, ?_⟩
  rintro ⟨ret, after, result, -⟩
  cases fault.symm.trans result

end Xrt.Kds
