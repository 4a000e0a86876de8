import Mathlib.Tactic.IntervalCases
import Xrt.Errno
import Xrt.Lib.ByteMemory
import Xrt.Xgq.Ring

/-!
# The layout of an XGQ in memory

`xgq_alloc` lays an XGQ out in the memory of a device and writes a header in front of it;
`xgq_attach` finds the same queue again from the header. The allocator computes addresses in
64 bits, the header holds offsets of 32 bits, and the number of slots comes from lengths that
are summed up in 32 bits.
-/
namespace Xrt.Xgq.Layout

open Lib

/-- The memory behind each io handle. Registers are accessed like memory. -/
abbrev Devices := BitVec 64 → ByteMem

/-- `struct xgq_ring` with the addresses of the shared words. -/
structure Ring extends XgqRing where
  xrProducedAddr : BitVec 64
  xrConsumedAddr : BitVec 64
  deriving DecidableEq, Repr

/-- `struct xgq`. -/
structure Queue where
  xqIoHdl : BitVec 64
  xqHeaderAddr : BitVec 64
  xqFlags : BitVec 32
  xqSq : Ring
  xqCq : Ring
  deriving DecidableEq, Repr

def XGQ_ALLOC_MAGIC : BitVec 32 := 0x5847513F
def XGQ_VERSION : BitVec 32 := 0x10000
def XGQ_DOUBLE_READ : BitVec 32 := 0x2
def XGQ_IN_MEM_PROD : BitVec 32 := 0x4
def XGQ_INTR_ENABLE_OFFSET : BitVec 64 := 12

/-- `sizeof(struct xgq_header)`: eleven words. -/
def HEADER_SIZE : Nat := 44

/-- `sizeof(struct xgq_com_queue_entry)`. -/
def COM_ENTRY_SIZE : Nat := 16

def isInMemProd (flags : BitVec 32) : Bool := flags.getLsbD 2

def xgqRingLen (nslots slotsz : Nat) : Nat := HEADER_SIZE + nslots * (slotsz + COM_ENTRY_SIZE)

def initRing (produced consumed slots : BitVec 64) (slotNum slotSize : BitVec 32) : Ring :=
  { xgqInitRing slots slotNum slotSize with xrProducedAddr := produced, xrConsumedAddr := consumed }

variable (m : ByteMem)

def readProduced (ring : Ring) : Ring :=
  { ring with toXgqRing := xgqRingReadProduced ring.toXgqRing (read32 m ring.xrProducedAddr) }

def readConsumed (ring : Ring) : Ring :=
  { ring with toXgqRing := xgqRingReadConsumed ring.toXgqRing (read32 m ring.xrConsumedAddr) }

def xgqFastForward (ring : Ring) : Ring := readConsumed m (readProduced m ring)

def xgqSoftReset (ring : Ring) : Ring × ByteMem :=
  let ring := readProduced m ring
  let ring := { ring with xrConsumed := ring.xrProduced }
  (ring, write32 m ring.xrConsumedAddr ring.xrConsumed)

/-- Where the counts of produced entries are: in the header, or at the addresses given. -/
def producedAddrs (flags : BitVec 32) (ringAddr sqProduced cqProduced : BitVec 64) :
    BitVec 64 × BitVec 64 :=
  if isInMemProd flags then (ringAddr + 36, ringAddr + 40) else (sqProduced, cqProduced)

/-- `struct xgq_header` after `xgq_init` has filled it, still without the magic number. -/
def headerWords (flags nSlots slotSize sqOffset cqOffset : BitVec 32) : List (BitVec 32) :=
  [0, XGQ_VERSION, nSlots, sqOffset, slotSize, cqOffset, 0, 0, flags, 0, 0]

def xgqInit (flags ioHdl ringAddr : BitVec 64) (nSlots slotSize : BitVec 32)
    (sqProduced cqProduced : BitVec 64) : Queue × ByteMem :=
  let flags := flags.setWidth 32
  let (sqprod, cqprod) := producedAddrs flags ringAddr sqProduced cqProduced
  let m := if isInMemProd flags then m else write32 m (cqprod + XGQ_INTR_ENABLE_OFFSET) 1
  let sq := initRing sqprod (ringAddr + 24) (ringAddr + BitVec.ofNat 64 HEADER_SIZE) nSlots slotSize
  let cq := initRing cqprod (ringAddr + 28)
    (ringAddr + BitVec.ofNat 64 (HEADER_SIZE + nSlots.toNat * slotSize.toNat)) nSlots
    (BitVec.ofNat 32 COM_ENTRY_SIZE)
  let sqOffset := (sq.xrSlotAddr - ringAddr).setWidth 32
  let cqOffset := (cq.xrSlotAddr - ringAddr).setWidth 32
  let m := writeWords m ringAddr (headerWords flags nSlots slotSize sqOffset cqOffset)
  let (sq, m) := xgqSoftReset m sq
  let (cq, m) := xgqSoftReset m cq
  (⟨ioHdl, ringAddr, flags, sq, cq⟩, write32 m ringAddr XGQ_ALLOC_MAGIC)

/-- The sum of the ring lengths, kept in 32 bits. -/
def totalLen (numslots : BitVec 32) (slotSizes : List (BitVec 32)) : BitVec 32 :=
  slotSizes.foldl (fun total size => total + BitVec.ofNat 32 (xgqRingLen numslots.toNat size.toNat)) 0

/-- The loop of `xgq_alloc_num_slots`. The count is doubled until it reaches `2 ^ 31`, so 31
rounds are all there are. -/
def numSlotsLoop (rlen : Nat) (slotSizes : List (BitVec 32)) :
    (rounds : Nat) → (total numslots : BitVec 32) → BitVec 32
  | 0, _, numslots => numslots
  | rounds + 1, total, numslots =>
    if total.toNat ≤ rlen && numslots.toNat < 2 ^ 31 then
      let numslots := numslots <<< 1
      numSlotsLoop rlen slotSizes rounds (totalLen numslots slotSizes) numslots
    else numslots

def xgqAllocNumSlots (rlen : Nat) (slotSizes : List (BitVec 32)) : BitVec 32 :=
  numSlotsLoop rlen slotSizes 31 0 1 >>> 1

/-- The queue, the length of its ring, and the memory. -/
def xgqAlloc (d : Devices) (flags ioHdl ringAddr : BitVec 64) (ringLen : Nat)
    (slotSize : BitVec 32) (sqProduced cqProduced : BitVec 64) : Except Int (Queue × Nat × Devices) :=
  if slotSize.toNat % 4 ≠ 0 then .error (-EINVAL)
  else
    let numslots := xgqAllocNumSlots ringLen [slotSize]
    if numslots.toNat < 2 then .error (-E2BIG)
    else
      let (xgq, m) :=
        xgqInit (d ioHdl) flags ioHdl ringAddr numslots slotSize sqProduced cqProduced
      .ok (xgq, xgqRingLen numslots.toNat slotSize.toNat, Function.update d ioHdl m)

/-- The handle that is used is the one in `xgq`: the argument `io_hdl` is not stored. -/
def xgqAttach (d : Devices) (xgq : Queue) (flags ringAddr sqProduced cqProduced : BitVec 64) :
    Except Int (Queue × Devices) :=
  let m := d xgq.xqIoHdl
  let word k := read32 m (wordAt ringAddr k)
  if word 0 ≠ XGQ_ALLOC_MAGIC then .error (-EAGAIN)
  else if word 1 >>> 16 ≠ 1 then .error (-EOPNOTSUPP)
  else if (word 2).toNat < 2 || word 2 &&& (word 2 - 1) ≠ 0 then .error (-EPROTO)
  else
    let flags := flags.setWidth 32 ||| (word 8 &&& XGQ_DOUBLE_READ) ||| (word 8 &&& XGQ_IN_MEM_PROD)
    let (sqprod, cqprod) := producedAddrs flags ringAddr sqProduced cqProduced
    let m := if isInMemProd flags then m else write32 m (sqprod + XGQ_INTR_ENABLE_OFFSET) 1
    let sq := initRing sqprod (ringAddr + 24) (ringAddr + (word 3).setWidth 64) (word 2) (word 4)
    let cq := initRing cqprod (ringAddr + 28) (ringAddr + (word 5).setWidth 64) (word 2)
      (BitVec.ofNat 32 COM_ENTRY_SIZE)
    .ok ({ xgq with xqFlags := flags, xqSq := xgqFastForward m sq, xqCq := xgqFastForward m cq },
      Function.update d xgq.xqIoHdl m)

/-! ### The number of slots -/

theorem toNat_shiftLeft_one {n : BitVec 32} (small : n.toNat < 2 ^ 31) :
    (n <<< 1).toNat = 2 * n.toNat := by
  rw [BitVec.toNat_shiftLeft, Nat.shiftLeft_eq]
  omega

/-- The loop doubles a power of two as long as the sum is at most the length; it stops at `2 ^ 31`
at the latest. -/
theorem numSlotsLoop_spec (rlen : Nat) (slotSizes : List (BitVec 32)) {rounds j : Nat}
    {numslots : BitVec 32} (power : numslots = BitVec.ofNat 32 (2 ^ j)) (left : j + rounds = 31) :
    ∃ i, j ≤ i ∧ i ≤ 31
      ∧ numSlotsLoop rlen slotSizes rounds (totalLen numslots slotSizes) numslots
        = BitVec.ofNat 32 (2 ^ i)
      ∧ (∀ l, j ≤ l → l < i → (totalLen (BitVec.ofNat 32 (2 ^ l)) slotSizes).toNat ≤ rlen)
      ∧ (i < 31 → rlen < (totalLen (BitVec.ofNat 32 (2 ^ i)) slotSizes).toNat) := by
  induction rounds generalizing j numslots with
  | zero => exact ⟨j, le_refl j, by omega, power, by omega, by omega⟩
  | succ rounds ih =>
    have bound : 2 ^ j < 2 ^ 31 := Nat.pow_lt_pow_right (by decide) (by omega)
    have value : numslots.toNat = 2 ^ j := by
      rw [power, BitVec.toNat_ofNat, Nat.mod_eq_of_lt (by omega)]
    have small : numslots.toNat < 2 ^ 31 := value ▸ bound
    unfold numSlotsLoop
    by_cases goes : (totalLen numslots slotSizes).toNat ≤ rlen
    · rw [if_pos (by simpa [goes] using small)]
      have doubled : numslots <<< 1 = BitVec.ofNat 32 (2 ^ (j + 1)) := by
        apply BitVec.eq_of_toNat_eq
        rw [toNat_shiftLeft_one small, value, BitVec.toNat_ofNat, Nat.pow_succ]
        omega
      obtain ⟨i, lower, upper, result, within, exceeds⟩ := ih doubled (by omega)
      refine ⟨i, by omega, upper, result, fun l above below => ?_, exceeds⟩
      rcases Nat.eq_or_lt_of_le above with rfl | later
      · rw [← power]
        exact goes
      · exact within l later below
    · rw [if_neg (by simp [goes])]
      refine ⟨j, le_refl j, by omega, power, by omega, fun _ => ?_⟩
      rw [← power]
      omega

/-- The number of slots is the largest power of two whose sums, up to it, are all at most the
length, and at most `2 ^ 30`. -/
theorem xgqAllocNumSlots_spec (rlen : Nat) (slotSizes : List (BitVec 32)) :
    ∃ k ≤ 30, (xgqAllocNumSlots rlen slotSizes).toNat = 2 ^ k
      ∧ (∀ l, 1 ≤ l → l ≤ k → (totalLen (BitVec.ofNat 32 (2 ^ l)) slotSizes).toNat ≤ rlen)
      ∧ (k < 30 → rlen < (totalLen (BitVec.ofNat 32 (2 ^ (k + 1))) slotSizes).toNat) := by
  -- The first round is always made.
  have first : numSlotsLoop rlen slotSizes 31 0 1 =
      numSlotsLoop rlen slotSizes 30 (totalLen 2 slotSizes) 2 := by
    rfl
  obtain ⟨i, lower, upper, result, within, exceeds⟩ := numSlotsLoop_spec rlen slotSizes
    (show (2 : BitVec 32) = BitVec.ofNat 32 (2 ^ 1) from rfl) (show 1 + 30 = 31 from rfl)
  obtain ⟨k, rfl⟩ : ∃ k, i = k + 1 := ⟨i - 1, by omega⟩
  have bound : 2 ^ (k + 1) ≤ 2 ^ 31 := Nat.pow_le_pow_right (by decide) upper
  refine ⟨k, by omega, ?_, fun l above below => within l above (by omega), fun _ => exceeds (by omega)⟩
  rw [xgqAllocNumSlots, first, result, BitVec.toNat_ushiftRight, BitVec.toNat_ofNat,
    Nat.mod_eq_of_lt (by omega), Nat.shiftRight_eq_div_pow, Nat.pow_succ]
  omega

section Alloc

variable {d d' : Devices} {flags ioHdl ringAddr sqProduced cqProduced : BitVec 64} {ringLen len : Nat}
  {slotSize : BitVec 32} {xgq : Queue}

/-- For every power of two that passes in 32 bits, with those below it, the CQ begins below 4 GiB. -/
def OffsetFits (ringLen : Nat) (slotSize : BitVec 32) : Prop :=
  ∀ j, 1 ≤ j → j ≤ 30 → (∀ l, 1 ≤ l → l ≤ j → xgqRingLen (2 ^ l) slotSize.toNat % 2 ^ 32 ≤ ringLen) →
    HEADER_SIZE + 2 ^ j * slotSize.toNat < 2 ^ 32

theorem totalLen_one (n slotSize : BitVec 32) :
    (totalLen n [slotSize]).toNat = xgqRingLen n.toNat slotSize.toNat % 2 ^ 32 := by
  have sum : totalLen n [slotSize] = BitVec.ofNat 32 (xgqRingLen n.toNat slotSize.toNat) :=
    BitVec.zero_add _
  rw [sum, BitVec.toNat_ofNat]

variable {k : Nat} {b : BitVec 64}

/-- The condition speaks of the last power of two that passes. -/
theorem offsetFits_iff (positive : 1 ≤ k) (small : k ≤ 30)
    (within : ∀ l, 1 ≤ l → l ≤ k → (totalLen (BitVec.ofNat 32 (2 ^ l)) [slotSize]).toNat ≤ ringLen)
    (exceeds : k < 30 → ringLen < (totalLen (BitVec.ofNat 32 (2 ^ (k + 1))) [slotSize]).toNat) :
    OffsetFits ringLen slotSize ↔ HEADER_SIZE + 2 ^ k * slotSize.toNat < 2 ^ 32 := by
  have total {l : Nat} (le : l ≤ 31) : (totalLen (BitVec.ofNat 32 (2 ^ l)) [slotSize]).toNat
      = xgqRingLen (2 ^ l) slotSize.toNat % 2 ^ 32 := by
    have bound : 2 ^ l < 2 ^ 32 := Nat.pow_lt_pow_right (by decide) (by omega)
    rw [totalLen_one, BitVec.toNat_ofNat, Nat.mod_eq_of_lt bound]
  constructor
  · exact fun fits => fits k positive small fun l above below =>
      total (show l ≤ 31 by omega) ▸ within l above below
  · intro fits j above bound passes
    have le : j ≤ k := by
      by_contra beyond
      have failed := exceeds (by omega)
      rw [total (by omega)] at failed
      have passed := passes (k + 1) (by omega) (by omega)
      omega
    have product : 2 ^ j * slotSize.toNat ≤ 2 ^ k * slotSize.toNat :=
      Nat.mul_le_mul_right _ (Nat.pow_le_pow_right (by decide) le)
    omega

/-- What a successful `xgq_alloc` did. -/
structure Allocated (d : Devices) (flags ioHdl ringAddr : BitVec 64) (ringLen : Nat) (slotSize : BitVec 32)
    (sqProduced cqProduced : BitVec 64) (xgq : Queue) (len : Nat) (d' : Devices) (n : BitVec 32) : Prop where
  power : ∃ k, 1 ≤ k ∧ k ≤ 30 ∧ n.toNat = 2 ^ k
  words : slotSize.toNat % 4 = 0
  total : (totalLen n [slotSize]).toNat ≤ ringLen
  fits : OffsetFits ringLen slotSize ↔ HEADER_SIZE + n.toNat * slotSize.toNat < 2 ^ 32
  init : xgqInit (d ioHdl) flags ioHdl ringAddr n slotSize sqProduced cqProduced = (xgq, d' ioHdl)
  len_eq : len = xgqRingLen n.toNat slotSize.toNat

theorem xgqAlloc_ok
    (ok : xgqAlloc d flags ioHdl ringAddr ringLen slotSize sqProduced cqProduced = .ok (xgq, len, d')) :
    ∃ n, Allocated d flags ioHdl ringAddr ringLen slotSize sqProduced cqProduced xgq len d' n := by
  unfold xgqAlloc at ok
  split at ok
  · cases ok
  next words =>
    simp only at ok
    split at ok
    · cases ok
    next enough =>
      cases ok
      obtain ⟨k, upper, power, within, exceeds⟩ := xgqAllocNumSlots_spec ringLen [slotSize]
      have positive : 1 ≤ k := by
        rcases Nat.eq_zero_or_pos k with rfl | positive
        · exact absurd power (by omega)
        · exact positive
      have number : xgqAllocNumSlots ringLen [slotSize] = BitVec.ofNat 32 (2 ^ k) := by
        rw [← power, BitVec.ofNat_toNat, BitVec.setWidth_eq]
      refine ⟨xgqAllocNumSlots ringLen [slotSize], ⟨k, positive, upper, power⟩, not_not.mp words,
        number ▸ within k positive (le_refl k), ?_, ?_, rfl⟩
      · rw [power]
        exact offsetFits_iff positive upper within exceeds
      · rw [Function.update_self]

variable {n : BitVec 32}

theorem Allocated.slots
    (alloc : Allocated d flags ioHdl ringAddr ringLen slotSize sqProduced cqProduced xgq len d' n) :
    xgq.xqSq.xrSlotNum = n ∧ xgq.xqSq.xrSlotSz = slotSize ∧
      xgq.xqSq.xrSlotAddr = ringAddr + BitVec.ofNat 64 HEADER_SIZE ∧
      xgq.xqCq.xrSlotNum = n ∧ xgq.xqCq.xrSlotSz = BitVec.ofNat 32 COM_ENTRY_SIZE ∧
      xgq.xqCq.xrSlotAddr =
        ringAddr + BitVec.ofNat 64 (HEADER_SIZE + n.toNat * slotSize.toNat) := by
  have queue := congrArg Prod.fst alloc.init
  simp only at queue
  rw [← queue]
  exact ⟨rfl, rfl, rfl, rfl, rfl, rfl⟩

/-! ### The regions -/

def slotRegion (ring : Ring) : Set (BitVec 64) :=
  region ring.xrSlotAddr (ring.xrSlotNum.toNat * ring.xrSlotSz.toNat)

/-- Header, SQ slots and CQ slots are pairwise disjoint and inside the ring. -/
structure LaidOut (xgq : Queue) (ringAddr : BitVec 64) (len : Nat) : Prop where
  headerSq : Disjoint (region ringAddr HEADER_SIZE) (slotRegion xgq.xqSq)
  headerCq : Disjoint (region ringAddr HEADER_SIZE) (slotRegion xgq.xqCq)
  sqCq : Disjoint (slotRegion xgq.xqSq) (slotRegion xgq.xqCq)
  header : region ringAddr HEADER_SIZE ⊆ region ringAddr len
  sq : slotRegion xgq.xqSq ⊆ region ringAddr len
  cq : slotRegion xgq.xqCq ⊆ region ringAddr len

theorem Allocated.laidOut
    (alloc : Allocated d flags ioHdl ringAddr ringLen slotSize sqProduced cqProduced xgq len d' n) :
    LaidOut xgq ringAddr len := by
  obtain ⟨sqNum, sqSz, sqAddr, cqNum, cqSz, cqAddr⟩ := alloc.slots
  obtain ⟨k, -, upper, power⟩ := alloc.power
  have few : n.toNat ≤ 2 ^ 30 := by
    rw [power]
    exact Nat.pow_le_pow_right (by decide) upper
  have product : n.toNat * slotSize.toNat ≤ 2 ^ 30 * 2 ^ 32 :=
    Nat.mul_le_mul few (Nat.le_of_lt slotSize.isLt)
  have lenEq : len = HEADER_SIZE + n.toNat * slotSize.toNat + n.toNat * COM_ENTRY_SIZE := by
    rw [alloc.len_eq, xgqRingLen, Nat.mul_add, Nat.add_assoc]
  have mem_sq : ∀ a, a ∈ slotRegion xgq.xqSq ↔ HEADER_SIZE ≤ (a - ringAddr).toNat ∧
      (a - ringAddr).toNat < HEADER_SIZE + n.toNat * slotSize.toNat := by
    intro a
    rw [slotRegion, sqAddr, sqNum, sqSz]
    exact mem_region_add (by unfold HEADER_SIZE; omega)
  have mem_cq : ∀ a, a ∈ slotRegion xgq.xqCq ↔
      HEADER_SIZE + n.toNat * slotSize.toNat ≤ (a - ringAddr).toNat ∧
        (a - ringAddr).toNat < len := by
    intro a
    rw [slotRegion, cqAddr, cqNum, cqSz, lenEq]
    exact mem_region_add (by unfold HEADER_SIZE; simp only [BitVec.toNat_ofNat, COM_ENTRY_SIZE]; omega)
  have mem_header : ∀ a size, a ∈ region ringAddr size ↔ (a - ringAddr).toNat < size :=
    fun a size => Iff.rfl
  -- each part is a range of offsets from the ring
  rw [HEADER_SIZE] at lenEq
  constructor
  all_goals
    simp only [Set.disjoint_left, Set.subset_def, mem_header, mem_sq, mem_cq, HEADER_SIZE]
    intro a
    omega

/-! ### What the attacher reads -/

variable {a : BitVec 64} {image : ByteMem} {sqCount v : BitVec 32}

theorem read32_write32_aligned (v : BitVec 32) (aligned : (b - a).toNat % 4 = 0) :
    read32 (write32 m a v) b = if b = a then v else read32 m b := by
  split_ifs with same
  · rw [same, read32_write32_self]
  · refine read32_write32_apart m v ?_
    unfold Apart
    constructor <;> bv_omega

theorem wordAt_inj {j : Nat} (hj : j < 2 ^ 32) (hk : k < 2 ^ 32) :
    wordAt a j = wordAt a k ↔ j = k := by
  refine ⟨fun same => ?_, congrArg _⟩
  by_contra ne
  have apart := (wordAt_apart a hj hk ne).1
  rw [same, BitVec.sub_self] at apart
  exact absurd apart (by decide)

/-- The last three writes of `xgq_init`: two counters and the magic number. -/
def finish (ringAddr : BitVec 64) (sqCount cqCount : BitVec 32) : ByteMem :=
  write32 (write32 (write32 m (ringAddr + 24) sqCount) (ringAddr + 28) cqCount) ringAddr
    XGQ_ALLOC_MAGIC

theorem read32_finish (sqCount cqCount : BitVec 32)
    (word : (b - ringAddr).toNat % 4 = 0) : read32 (finish m ringAddr sqCount cqCount) b =
      if b = ringAddr then XGQ_ALLOC_MAGIC else if b = ringAddr + 28 then cqCount
      else if b = ringAddr + 24 then sqCount else read32 m b := by
  rw [finish, read32_write32_aligned _ _ word, read32_write32_aligned _ _ (by bv_omega),
    read32_write32_aligned _ _ (by bv_omega)]

theorem wordAt_aligned (ringAddr : BitVec 64) (k : Nat) :
    (wordAt ringAddr k - ringAddr).toNat % 4 = 0 := by
  unfold wordAt
  bv_omega

theorem read32_finish_wordAt (sqCount cqCount : BitVec 32) (small : k < 11) :
    read32 (finish m ringAddr sqCount cqCount) (wordAt ringAddr k) =
      if k = 0 then XGQ_ALLOC_MAGIC else if k = 7 then cqCount else if k = 6 then sqCount
      else read32 m (wordAt ringAddr k) := by
  have same {j : Nat} (below : j < 11) : wordAt ringAddr k = wordAt ringAddr j ↔ k = j :=
    wordAt_inj (by omega) (by omega)
  rw [read32_finish m sqCount cqCount (wordAt_aligned ringAddr k)]
  refine if_congr ?_ rfl (if_congr (same (j := 7) (by decide)) rfl
    (if_congr (same (j := 6) (by decide)) rfl rfl))
  rw [← same (by decide), wordAt_zero]

/-- The memory with the header in it, before the counters are reset. -/
def headerImage (flags : BitVec 32) (ringAddr : BitVec 64) (n slotSize : BitVec 32)
    (cqprod : BitVec 64) : ByteMem :=
  writeWords (if isInMemProd flags then m else write32 m (cqprod + XGQ_INTR_ENABLE_OFFSET) 1) ringAddr
    (headerWords flags n slotSize (BitVec.ofNat 32 HEADER_SIZE)
      (BitVec.ofNat 32 (HEADER_SIZE + n.toNat * slotSize.toNat)))

theorem offset_setWidth (base : BitVec 64) (off : Nat) :
    (base + BitVec.ofNat 64 off - base).setWidth 32 = BitVec.ofNat 32 off := by
  have cancel : base + BitVec.ofNat 64 off - base = BitVec.ofNat 64 off := by bv_omega
  rw [cancel, BitVec.setWidth_ofNat_of_le (by decide)]

theorem xgqInit_eq (flags ioHdl ringAddr : BitVec 64) (n slotSize : BitVec 32)
    (sqProduced cqProduced : BitVec 64) :
    let addrs := producedAddrs (flags.setWidth 32) ringAddr sqProduced cqProduced
    let image := headerImage m (flags.setWidth 32) ringAddr n slotSize addrs.2
    let sqCount := read32 image addrs.1
    let cqCount := read32 (write32 image (ringAddr + 24) sqCount) addrs.2
    let result := xgqInit m flags ioHdl ringAddr n slotSize sqProduced cqProduced
    result.2 = finish image ringAddr sqCount cqCount ∧
      result.1.xqSq = ⟨⟨n, slotSize, sqCount, sqCount, ringAddr + BitVec.ofNat 64 HEADER_SIZE⟩, addrs.1,
        ringAddr + 24⟩ ∧
      result.1.xqCq = ⟨⟨n, BitVec.ofNat 32 COM_ENTRY_SIZE, cqCount, cqCount,
        ringAddr + BitVec.ofNat 64 (HEADER_SIZE + n.toNat * slotSize.toNat)⟩, addrs.2, ringAddr + 28⟩ := by
  simp only [xgqInit, initRing, xgqInitRing, offset_setWidth, xgqSoftReset, readProduced, xgqRingReadProduced,
    headerImage, finish, and_self]

theorem read32_headerImage (flags : BitVec 32) (ringAddr : BitVec 64)
    (n slotSize : BitVec 32) (cqprod : BitVec 64) (small : k < 11) :
    read32 (headerImage m flags ringAddr n slotSize cqprod) (wordAt ringAddr k) =
      (headerWords flags n slotSize (BitVec.ofNat 32 HEADER_SIZE)
        (BitVec.ofNat 32 (HEADER_SIZE + n.toNat * slotSize.toNat))).getD k 0 :=
  read32_writeWords _ ringAddr (show 11 ≤ 2 ^ 32 by decide) small

/-- The words of the header that the attacher goes by. -/
structure HeaderAt (m : ByteMem) (ringAddr : BitVec 64) (flags n slotSize : BitVec 32) : Prop where
  magic : read32 m (wordAt ringAddr 0) = XGQ_ALLOC_MAGIC
  word : ∀ k ∈ [1, 2, 3, 4, 5, 8], read32 m (wordAt ringAddr k) =
    (headerWords flags n slotSize (BitVec.ofNat 32 HEADER_SIZE)
      (BitVec.ofNat 32 (HEADER_SIZE + n.toNat * slotSize.toNat))).getD k 0

theorem xgqInit_headerAt (flags ioHdl ringAddr : BitVec 64) (n slotSize : BitVec 32)
    (sqProduced cqProduced : BitVec 64) :
    HeaderAt (xgqInit m flags ioHdl ringAddr n slotSize sqProduced cqProduced).2 ringAddr
      (flags.setWidth 32) n slotSize := by
  have memory := (xgqInit_eq m flags ioHdl ringAddr n slotSize sqProduced cqProduced).1
  constructor
  · rw [memory, read32_finish_wordAt _ _ _ (by decide), if_pos rfl]
  · intro k member
    simp only [List.mem_cons, List.not_mem_nil, or_false] at member
    rw [memory, read32_finish_wordAt _ _ _ (by omega), if_neg (by omega), if_neg (by omega),
      if_neg (by omega), read32_headerImage _ _ _ _ _ _ (by omega)]

theorem pow_and_pred {n : BitVec 32} (power : n.toNat = 2 ^ k) : n &&& (n - 1) = 0 := by
  apply BitVec.eq_of_toNat_eq
  have positive : 0 < 2 ^ k := Nat.two_pow_pos k
  have pred : (n - 1).toNat = 2 ^ k - 1 := by bv_omega
  rw [BitVec.toNat_and, pred, power, Nat.and_two_pow_sub_one_eq_mod, Nat.mod_self]
  rfl

theorem isInMemProd_attach {flags aflags : BitVec 32}
    (asks : isInMemProd aflags = true → isInMemProd flags = true) :
    isInMemProd (aflags ||| (flags &&& XGQ_DOUBLE_READ) ||| (flags &&& XGQ_IN_MEM_PROD)) =
      isInMemProd flags := by
  have double : XGQ_DOUBLE_READ.getLsbD 2 = false := by decide
  have inMem : XGQ_IN_MEM_PROD.getLsbD 2 = true := by decide
  unfold isInMemProd at asks ⊢
  simp only [BitVec.getLsbD_or, BitVec.getLsbD_and, double, inMem, Bool.and_false, Bool.and_true, Bool.or_false]
  cases given : aflags.getLsbD 2 with
  | false => rfl
  | true => rw [asks given]; rfl

theorem xgqAttach_ok (d : Devices) (xgq : Queue) (aflags ringAddr sqProduced cqProduced : BitVec 64)
    {flags n slotSize : BitVec 32} (power : n.toNat = 2 ^ k) (enough : 1 ≤ k)
    (asks : isInMemProd (aflags.setWidth 32) = true → isInMemProd flags = true)
    (header : HeaderAt (d xgq.xqIoHdl) ringAddr flags n slotSize) :
    let m := d xgq.xqIoHdl
    let addrs := producedAddrs flags ringAddr sqProduced cqProduced
    let m' := if isInMemProd flags then m else write32 m (addrs.1 + XGQ_INTR_ENABLE_OFFSET) 1
    ∃ xgq' d', xgqAttach d xgq aflags ringAddr sqProduced cqProduced = .ok (xgq', d') ∧
      xgq'.xqSq = xgqFastForward m' (initRing addrs.1 (ringAddr + 24)
        (ringAddr + (BitVec.ofNat 32 HEADER_SIZE).setWidth 64) n slotSize) ∧
      xgq'.xqCq = xgqFastForward m' (initRing addrs.2 (ringAddr + 28)
        (ringAddr + (BitVec.ofNat 32 (HEADER_SIZE + n.toNat * slotSize.toNat)).setWidth 64) n
        (BitVec.ofNat 32 COM_ENTRY_SIZE)) := by
  have words := header.word
  simp only [List.forall_mem_cons] at words
  obtain ⟨version, slotNum, sqOff, size, cqOff, flagsWord, -⟩ := words
  have major : XGQ_VERSION >>> 16 = 1 := by decide
  have many : ¬ (n.toNat < 2) := by
    have : 2 ^ 1 ≤ 2 ^ k := Nat.pow_le_pow_right (by decide) enough
    omega
  have inMem := isInMemProd_attach asks
  unfold xgqAttach
  simp only [header.magic, version, slotNum, sqOff, size, cqOff, flagsWord, headerWords,
    List.getD_cons_succ, List.getD_cons_zero, major, pow_and_pred power, many, producedAddrs, inMem, ne_eq, not_true_eq_false, if_false, decide_false, Bool.or_false, Bool.false_eq_true]
  exact ⟨_, _, rfl, rfl, rfl⟩

/-! ### Allocator and attacher -/

/-- The producer addresses are whole words away from the ring. -/
def Aligned (ringAddr sqProduced cqProduced : BitVec 64) : Prop :=
  (sqProduced - ringAddr).toNat % 4 = 0 ∧ (cqProduced - ringAddr).toNat % 4 = 0

/-- The allocator finds this count at the address: in a word of the header, as far as the arguments
decide it, or in the memory around it. -/
def FindsCount (flags slotSize : BitVec 32) (ringAddr a : BitVec 64) (v : BitVec 32) : Prop :=
  (∃ k < 11, a = wordAt ringAddr k
      ∧ (k = 4 ∧ slotSize = v ∨ k = 8 ∧ flags = v ∨ k ∈ [6, 7, 9, 10] ∧ v = 0))
    ∨ (∀ k < 11, a ≠ wordAt ringAddr k) ∧ read32 m a = v

/-- No counter is overwritten, or it already has the value that is written. -/
structure CountsKept (m : ByteMem) (flags slotSize : BitVec 32)
    (ringAddr sqProduced cqProduced : BitVec 64) : Prop where
  sq : sqProduced ≠ ringAddr ∧ sqProduced ≠ ringAddr + 12
  cq : cqProduced ≠ ringAddr
  consumed : sqProduced = ringAddr + 28 → FindsCount m flags slotSize ringAddr cqProduced 0
  interrupt : sqProduced = ringAddr + 16 ∨ cqProduced = sqProduced + XGQ_INTR_ENABLE_OFFSET →
    FindsCount m flags slotSize ringAddr cqProduced 1

theorem apart_interrupt (a : BitVec 64) : Apart (a + XGQ_INTR_ENABLE_OFFSET) a := by
  unfold Apart XGQ_INTR_ENABLE_OFFSET
  constructor <;> bv_omega

/-- The counters that the attacher finds are those of the allocator. -/
def CountsFound (flags n slotSize : BitVec 32) (ringAddr sqProduced cqProduced : BitVec 64) :
    Prop :=
  let addrs := producedAddrs flags ringAddr sqProduced cqProduced
  let image := headerImage m flags ringAddr n slotSize addrs.2
  let sqCount := read32 image addrs.1
  let cqCount := read32 (write32 image (ringAddr + 24) sqCount) addrs.2
  let left := finish image ringAddr sqCount cqCount
  let m' := if isInMemProd flags then left else write32 left (addrs.1 + XGQ_INTR_ENABLE_OFFSET) 1
  read32 m' addrs.1 = sqCount ∧ read32 m' (ringAddr + 24) = sqCount ∧
    read32 m' addrs.2 = cqCount ∧ read32 m' (ringAddr + 28) = cqCount

theorem countsFound_inMem {flags : BitVec 32} (n slotSize : BitVec 32)
    (inMem : isInMemProd flags = true) :
    CountsFound m flags n slotSize ringAddr sqProduced cqProduced := by
  have sq : ringAddr + 24 = wordAt ringAddr 6 := rfl
  have cq : ringAddr + 28 = wordAt ringAddr 7 := rfl
  have sqprod : ringAddr + 36 = wordAt ringAddr 9 := rfl
  have cqprod : ringAddr + 40 = wordAt ringAddr 10 := rfl
  simp only [CountsFound, producedAddrs, inMem, if_true]
  rw [sqprod, cqprod, sq, cq, read32_finish_wordAt _ _ _ (by decide),
    read32_finish_wordAt _ _ _ (by decide), read32_finish_wordAt _ _ _ (by decide),
    read32_finish_wordAt _ _ _ (by decide),
    read32_write32_apart _ _ (wordAt_apart ringAddr (by decide) (by decide) (by decide))]
  exact ⟨rfl, rfl, rfl, rfl⟩

/-- What is written after the counters have been read: the consumed counts, the magic number and the
attacher's interrupt register. -/
theorem read32_left (image : ByteMem) (sqCount cqCount : BitVec 32)
    (sqAt : (sqProduced - ringAddr).toNat % 4 = 0) (word : (b - ringAddr).toNat % 4 = 0) :
    read32 (write32 (finish image ringAddr sqCount cqCount) (sqProduced + 12) 1) b =
      if b = sqProduced + 12 then 1 else if b = ringAddr then XGQ_ALLOC_MAGIC
      else if b = ringAddr + 28 then cqCount else if b = ringAddr + 24 then sqCount
      else read32 image b := by
  rw [read32_write32_aligned _ _ (by bv_omega), read32_finish _ _ _ word]

theorem countsFound_iff {flags : BitVec 32} (n slotSize : BitVec 32)
    (outside : isInMemProd flags = false) (aligned : Aligned ringAddr sqProduced cqProduced)
    (header : headerImage m flags ringAddr n slotSize cqProduced = image)
    {cqCount : BitVec 32} (sqRead : read32 image sqProduced = sqCount)
    (cqRead : (if cqProduced = ringAddr + 24 then sqCount else read32 image cqProduced) = cqCount) :
    CountsFound m flags n slotSize ringAddr sqProduced cqProduced ↔
      ((sqProduced = ringAddr → XGQ_ALLOC_MAGIC = sqCount)
        ∧ (sqProduced = ringAddr + 28 → cqCount = sqCount))
      ∧ (sqProduced = ringAddr + 12 → 1 = sqCount)
      ∧ (if cqProduced = sqProduced + 12 then 1 = cqCount
        else cqProduced = ringAddr → XGQ_ALLOC_MAGIC = cqCount)
      ∧ (sqProduced = ringAddr + 16 → 1 = cqCount) := by
  obtain ⟨sqAt, cqAt⟩ := aligned
  have found : read32 (write32 image (ringAddr + 24) sqCount) cqProduced = cqCount := by
    rw [read32_write32_aligned image sqCount (by bv_omega), cqRead]
  have sqConsumed : ringAddr + 24 = sqProduced + 12 ↔ sqProduced = ringAddr + 12 := by
    constructor <;> intro same <;> bv_omega
  have cqConsumed : ringAddr + 28 = sqProduced + 12 ↔ sqProduced = ringAddr + 16 := by
    constructor <;> intro same <;> bv_omega
  simp only [CountsFound, producedAddrs, outside, Bool.false_eq_true, if_false,
    XGQ_INTR_ENABLE_OFFSET, header, sqRead, found]
  have sqWord : (ringAddr + 24 - ringAddr).toNat % 4 = 0 := by
    rw [BitVec.add_comm, BitVec.add_sub_cancel]
    decide
  have cqWord : (ringAddr + 28 - ringAddr).toNat % 4 = 0 := by
    rw [BitVec.add_comm, BitVec.add_sub_cancel]
    decide
  rw [read32_left image sqCount cqCount sqAt sqAt, read32_left image sqCount cqCount sqAt cqAt,
    read32_left image sqCount cqCount sqAt sqWord, read32_left image sqCount cqCount sqAt cqWord,
    sqRead]
  have sq : ¬ sqProduced = sqProduced + 12 := by simp
  have sqStart : ¬ ringAddr + 24 = ringAddr := by simp
  have cqStart : ¬ ringAddr + 28 = ringAddr := by simp
  have order : ¬ ringAddr + 24 = ringAddr + 28 := by simp
  simp only [sq, sqConsumed, cqConsumed, sqStart, cqStart, order, if_false, if_true]
  refine and_congr ?_ (and_congr ?_ (and_congr ?_ ?_))
  · split_ifs with magic consumed own <;> simp_all
  · split_ifs <;> simp_all
  · split_ifs with interrupt magic consumed own <;> simp_all
  · split_ifs <;> simp_all

theorem findsCount_wordAt {m : ByteMem} {flags slotSize : BitVec 32} (small : k < 11) :
    FindsCount m flags slotSize ringAddr (wordAt ringAddr k) v ↔
      k = 4 ∧ slotSize = v ∨ k = 8 ∧ flags = v ∨ k ∈ [6, 7, 9, 10] ∧ v = 0 := by
  refine ⟨?_, fun word => .inl ⟨k, small, rfl, word⟩⟩
  rintro (⟨j, inside, same, word⟩ | ⟨outside, -⟩)
  · cases (wordAt_inj (by omega) (by omega)).mp same
    exact word
  · exact absurd rfl (outside k small)

/-- The count that the allocator finds at an address other than that of the magic number. -/
theorem found_iff {flags n slotSize : BitVec 32} (power : n.toNat = 2 ^ k)
    (enough : 1 ≤ k) (fits : HEADER_SIZE + n.toNat * slotSize.toNat < 2 ^ 32)
    (outside : isInMemProd flags = false)
    (aligned : (cqProduced - ringAddr).toNat % 4 = 0) (bit : v = 0 ∨ v = 1)
    (start : cqProduced ≠ ringAddr)
    (header : headerImage m flags ringAddr n slotSize cqProduced = image)
    (sq : cqProduced = ringAddr + 24 → (sqCount = v ↔ v = 0)) :
    (if cqProduced = ringAddr + 24 then sqCount else read32 image cqProduced) = v
      ↔ FindsCount m flags slotSize ringAddr cqProduced v := by
  subst header
  by_cases inside : ∃ j < 11, cqProduced = wordAt ringAddr j
  · obtain ⟨j, small, rfl⟩ := inside
    rw [findsCount_wordAt small, read32_headerImage _ _ _ _ _ _ small]
    by_cases six : j = 6
    · subst six
      rw [if_pos (show wordAt ringAddr 6 = ringAddr + 24 from rfl), sq rfl]
      simp
    · have other : wordAt ringAddr j ≠ ringAddr + 24 := fun same =>
        six ((wordAt_inj (by omega) (by decide)).mp same)
      have first : j ≠ 0 := fun zero => start (by rw [zero, wordAt_zero])
      rw [if_neg other]
      have two : 2 ^ 1 ≤ n.toNat := power ▸ Nat.pow_le_pow_right (by decide) enough
      have slots : n ≠ v := by
        rcases bit with rfl | rfl <;> exact fun same => absurd two (by rw [same]; decide)
      have cqOffset : BitVec.ofNat 32 (HEADER_SIZE + n.toNat * slotSize.toNat) ≠ v := by
        intro same
        have value := congrArg BitVec.toNat same
        rw [BitVec.toNat_ofNat, Nat.mod_eq_of_lt fits, HEADER_SIZE] at value
        have low : v.toNat ≤ 1 := by rcases bit with rfl | rfl <;> decide
        omega
      have version : XGQ_VERSION ≠ v := by rcases bit with rfl | rfl <;> decide
      have sqOffset : BitVec.ofNat 32 HEADER_SIZE ≠ v := by rcases bit with rfl | rfl <;> decide
      have zero : 0 = v ↔ v = 0 := eq_comm
      interval_cases j <;> simp_all [headerWords]
  · have apart (j : Nat) (small : j < 11) : cqProduced ≠ wordAt ringAddr j :=
      fun same => inside ⟨j, small, same⟩
    have memory : read32 (headerImage m flags ringAddr n slotSize cqProduced) cqProduced
        = read32 m cqProduced := by
      rw [headerImage, read32_writeWords_outside, if_neg (by simp [outside]),
        read32_write32_apart _ _ (apart_interrupt cqProduced)]
      intro j small
      have ne := apart j small
      unfold Apart wordAt at *
      constructor <;> bv_omega
    have other : ¬ cqProduced = ringAddr + 24 := apart 6 (by decide)
    rw [if_neg other, memory, FindsCount, or_iff_right fun ⟨j, small, same, _⟩ => apart j small same]
    exact ⟨fun value => ⟨apart, value⟩, And.right⟩

theorem countsKept_iff {flags n slotSize : BitVec 32} (power : n.toNat = 2 ^ k)
    (enough : 1 ≤ k) (words : slotSize.toNat % 4 = 0)
    (fits : HEADER_SIZE + n.toNat * slotSize.toNat < 2 ^ 32) (outside : isInMemProd flags = false)
    (aligned : Aligned ringAddr sqProduced cqProduced) :
    CountsFound m flags n slotSize ringAddr sqProduced cqProduced
      ↔ CountsKept m flags slotSize ringAddr sqProduced cqProduced := by
  obtain ⟨image, filled⟩ : ∃ image, headerImage m flags ringAddr n slotSize cqProduced = image :=
    ⟨_, rfl⟩
  have header {k : Nat} {a : BitVec 64} (small : k < 11) (here : a = wordAt ringAddr k) :
      read32 image a = _ :=
    here ▸ filled ▸ read32_headerImage m flags ringAddr n slotSize cqProduced small
  have first {a : BitVec 64} (start : a = ringAddr) : read32 image a = 0 :=
    header (k := 0) (by decide) (start.trans (wordAt_zero _).symm)
  have third (here : sqProduced = ringAddr + 12) : read32 image sqProduced = 44 :=
    header (k := 3) (by decide) here
  have fourth (here : sqProduced = ringAddr + 16) : read32 image sqProduced = slotSize :=
    header (k := 4) (by decide) here
  have zero (here : sqProduced = ringAddr + 28) : read32 image sqProduced = 0 :=
    header (k := 7) (by decide) here
  have sqStart := first (a := sqProduced)
  rw [countsFound_iff m n slotSize outside aligned filled rfl rfl]
  generalize read32 image sqProduced = sqCount at *
  have counted (start : cqProduced = ringAddr) :
      (if cqProduced = ringAddr + 24 then sqCount else read32 image cqProduced) = 0 := by
    rw [if_neg (by simp [start]), first start]
  -- the count of the SQ is not 1 where an interrupt register is a counter
  have notOne (third : sqProduced ≠ ringAddr + 12)
      (either : sqProduced = ringAddr + 16 ∨ cqProduced = sqProduced + 12)
      (same : cqProduced = ringAddr + 24) : sqCount = 1 ↔ (1 : BitVec 32) = 0 := by
    refine iff_of_false (fun one => ?_) (by decide)
    rcases either with here | interrupt
    · rw [← fourth here, one] at words
      exact absurd words (by decide)
    · exact third (by bv_omega)
  have found {v : BitVec 32} (bit : v = 0 ∨ v = 1) (start : cqProduced ≠ ringAddr)
      (sq : cqProduced = ringAddr + 24 → (sqCount = v ↔ v = 0)) :=
    found_iff m power enough fits outside aligned.2 bit start filled sq
  generalize (if cqProduced = ringAddr + 24 then sqCount else read32 image cqProduced) = cqCount at *
  constructor
  · rintro ⟨⟨magic, consumed⟩, own, produced, interrupt⟩
    have third' : sqProduced ≠ ringAddr + 12 := fun here =>
      absurd ((own here).trans (third here)) (by decide)
    have start : cqProduced ≠ ringAddr := by
      intro start
      split_ifs at produced
      · exact absurd (produced.trans (counted start)) (by decide)
      · exact absurd ((produced start).trans (counted start)) (by decide)
    refine ⟨⟨fun here => absurd ((magic here).trans (sqStart here)) (by decide), third'⟩, start,
      fun here => ?_, fun either => ?_⟩
    · refine (found (.inl rfl) start fun _ => ?_).mp ((consumed here).trans (zero here))
      simp [zero here]
    · refine (found (.inr rfl) start (notOne third' either)).mp ?_
      rcases either with here | same
      · exact (interrupt here).symm
      · rw [if_pos (show cqProduced = sqProduced + 12 from same)] at produced
        exact produced.symm
  · rintro ⟨⟨start, third'⟩, cqStart', consumed, interrupt⟩
    have one (either : sqProduced = ringAddr + 16 ∨ cqProduced = sqProduced + 12) : 1 = cqCount :=
      ((found (.inr rfl) cqStart' (notOne third' either)).mpr (interrupt either)).symm
    refine ⟨⟨fun here => absurd here start, fun here => ?_⟩, fun here => absurd here third', ?_,
      fun here => one (.inl here)⟩
    · refine ((found (.inl rfl) cqStart' fun _ => ?_).mpr (consumed here)).trans (zero here).symm
      simp [zero here]
    · split_ifs with same
      · exact one (.inr same)
      · exact fun here => absurd here cqStart'

theorem xgqFastForward_initRing (produced consumed slots : BitVec 64)
    (slotNum slotSize : BitVec 32) :
    xgqFastForward m (initRing produced consumed slots slotNum slotSize) =
      ⟨⟨slotNum, slotSize, read32 m produced, read32 m consumed, slots⟩, produced, consumed⟩ := rfl

/-- The attacher ends up with the rings of the allocator, and nothing is in them. -/
def Agrees (xgq : Queue) (attached : Except Int (Queue × Devices)) : Prop :=
  ∃ xgq' d', attached = .ok (xgq', d') ∧ xgq'.xqSq = xgq.xqSq ∧ xgq'.xqCq = xgq.xqCq ∧
    xgq.xqSq.xrProduced = xgq.xqSq.xrConsumed ∧ xgq.xqCq.xrProduced = xgq.xqCq.xrConsumed

theorem offset_agrees_iff (base : BitVec 64) (off : Nat) (fits : off < 2 ^ 64) :
    base + (BitVec.ofNat 32 off).setWidth 64 = base + BitVec.ofNat 64 off ↔ off < 2 ^ 32 := by
  rw [BitVec.add_right_inj, ← BitVec.toNat_inj, BitVec.toNat_setWidth, BitVec.toNat_ofNat, BitVec.toNat_ofNat,
    Nat.mod_eq_of_lt fits]
  omega

/-- An attach agrees exactly if it finds the counters and the offset of the CQ. -/
theorem Allocated.agrees_iff
    (alloc : Allocated d flags ioHdl ringAddr ringLen slotSize sqProduced cqProduced xgq len d' n)
    {aflags : BitVec 64} {old : Queue} (handle : old.xqIoHdl = ioHdl)
    (asks : isInMemProd (aflags.setWidth 32) = true → isInMemProd (flags.setWidth 32) = true) :
    Agrees xgq (xgqAttach d' old aflags ringAddr sqProduced cqProduced) ↔
      OffsetFits ringLen slotSize
        ∧ CountsFound (d ioHdl) (flags.setWidth 32) n slotSize ringAddr sqProduced cqProduced := by
  obtain ⟨k, lower, upper, power⟩ := alloc.power
  obtain ⟨memory, sqRing, cqRing⟩ :=
    xgqInit_eq (d ioHdl) flags ioHdl ringAddr n slotSize sqProduced cqProduced
  rw [alloc.init] at memory sqRing cqRing
  simp only at memory sqRing cqRing
  have header := xgqInit_headerAt (d ioHdl) flags ioHdl ringAddr n slotSize sqProduced cqProduced
  rw [alloc.init, ← handle] at header
  obtain ⟨xgq', d'', attached, sq', cq'⟩ :=
    xgqAttach_ok d' old aflags ringAddr sqProduced cqProduced power lower asks header
  rw [handle] at sq' cq'
  rw [memory, xgqFastForward_initRing] at sq' cq'
  have few : n.toNat * slotSize.toNat ≤ 2 ^ 30 * 2 ^ 32 := by
    apply Nat.mul_le_mul _ (Nat.le_of_lt slotSize.isLt)
    rw [power]
    exact Nat.pow_le_pow_right (by decide) upper
  have offset_iff := offset_agrees_iff ringAddr (HEADER_SIZE + n.toNat * slotSize.toNat)
    (by unfold HEADER_SIZE; omega)
  rw [alloc.fits, ← offset_iff, CountsFound]
  constructor
  · rintro ⟨xgq2, d2, again, sqSame, cqSame, -, -⟩
    cases attached.symm.trans again
    have sq := sq'.symm.trans (sqSame.trans sqRing)
    have cq := cq'.symm.trans (cqSame.trans cqRing)
    simp only [Ring.mk.injEq, XgqRing.mk.injEq] at sq cq
    exact ⟨cq.1.2.2.2.2, sq.1.2.2.1, sq.1.2.2.2.1, cq.1.2.2.1, cq.1.2.2.2.1⟩
  · rintro ⟨agrees, sqProd, sqCons, cqProd, cqCons⟩
    refine ⟨xgq', d'', attached, ?_, ?_, ?_, ?_⟩
    · rw [sq', sqRing, sqProd, sqCons]
      rfl
    · rw [cq', cqRing, cqProd, cqCons, agrees]
    · rw [sqRing]
    · rw [cqRing]

/-- Every attach through the handle of the queue and with its producer addresses agrees, if its flags
ask for counts in the header only where those of the allocator do. -/
def AttachesAgree (d' : Devices) (xgq : Queue) (flags ringAddr sqProduced cqProduced : BitVec 64) : Prop :=
  ∀ (aflags : BitVec 64) (old : Queue), old.xqIoHdl = xgq.xqIoHdl →
    (isInMemProd (aflags.setWidth 32) = true → isInMemProd (flags.setWidth 32) = true) →
    Agrees xgq (xgqAttach d' old aflags ringAddr sqProduced cqProduced)

/-- Allocator and attacher agree on the queue, whose parts are disjoint and inside the ring,
if and only if the offset of the CQ has 32 bits and no counter is overwritten. -/
theorem alloc_attach_agree_iff
    (ok : xgqAlloc d flags ioHdl ringAddr ringLen slotSize sqProduced cqProduced = .ok (xgq, len, d'))
    (aligned : isInMemProd (flags.setWidth 32) = true ∨ Aligned ringAddr sqProduced cqProduced) :
    AttachesAgree d' xgq flags ringAddr sqProduced cqProduced ∧ LaidOut xgq ringAddr len ↔
      OffsetFits ringLen slotSize ∧ (isInMemProd (flags.setWidth 32) = true
        ∨ CountsKept (d ioHdl) (flags.setWidth 32) slotSize ringAddr sqProduced cqProduced) := by
  obtain ⟨n, alloc⟩ := xgqAlloc_ok ok
  obtain ⟨k, lower, -, power⟩ := alloc.power
  have handle : xgq.xqIoHdl = ioHdl := congrArg (fun result => result.1.xqIoHdl) alloc.init.symm
  have counts (fits : OffsetFits ringLen slotSize) :
      CountsFound (d ioHdl) (flags.setWidth 32) n slotSize ringAddr sqProduced cqProduced
        ↔ isInMemProd (flags.setWidth 32) = true
          ∨ CountsKept (d ioHdl) (flags.setWidth 32) slotSize ringAddr sqProduced cqProduced := by
    cases inMem : isInMemProd (flags.setWidth 32) with
    | true => exact iff_of_true (countsFound_inMem _ _ _ inMem) (.inl rfl)
    | false =>
      rw [countsKept_iff _ power lower alloc.words (alloc.fits.mp fits) inMem
        (aligned.resolve_left (by simp [inMem]))]
      simp
  constructor
  · rintro ⟨agree, -⟩
    obtain ⟨fits, found⟩ := (alloc.agrees_iff handle id).mp (agree flags xgq rfl id)
    exact ⟨fits, (counts fits).mp found⟩
  · rintro ⟨fits, kept⟩
    refine ⟨fun aflags old same asks => ?_, alloc.laidOut⟩
    exact (alloc.agrees_iff (same.trans handle) asks).mpr ⟨fits, (counts fits).mpr kept⟩

/-- The ring stays inside the length that was given to the allocator exactly if its own
length has 32 bits. -/
theorem xgqAlloc_within_iff
    (ok : xgqAlloc d flags ioHdl ringAddr ringLen slotSize sqProduced cqProduced = .ok (xgq, len, d'))
    (short : ringLen < 2 ^ 32) : len ≤ ringLen ↔ len < 2 ^ 32 := by
  obtain ⟨n, alloc⟩ := xgqAlloc_ok ok
  constructor
  · exact fun within => Nat.lt_of_le_of_lt within short
  · intro fits
    have total := alloc.total
    rwa [totalLen_one, ← alloc.len_eq, Nat.mod_eq_of_lt fits] at total

end Alloc

def zeroDevices : Devices := fun _ _ => 0

/-- A `struct xgq` that holds nothing but a handle. -/
def unattached (ioHdl : BitVec 64) : Queue :=
  ⟨ioHdl, 0, 0, initRing 0 0 0 0 0, initRing 0 0 0 0 0⟩

/-- Four slots of 16 bytes, with producer registers inside of the header. -/
theorem alloc_attach_agree_small :
    ∃ xgq len d', xgqAlloc zeroDevices 0 0 0x1000 200 16 0x1024 0x1028 = .ok (xgq, len, d') ∧ len = 172 ∧
      AttachesAgree d' xgq 0 0x1000 0x1024 0x1028 ∧ LaidOut xgq 0x1000 len := by
  have ok : xgqAlloc zeroDevices 0 0 0x1000 200 16 0x1024 0x1028 = .ok (_, _, _) := rfl
  have fits : OffsetFits 200 16 := by
    intro j above _ passes
    have low : j ≤ 2 := by
      by_contra high
      exact absurd (passes 3 (by decide) (by omega)) (by decide)
    interval_cases j <;> decide
  refine ⟨_, _, _, ok, by decide, (alloc_attach_agree_iff ok (.inr ⟨by decide, by decide⟩)).mpr
    ⟨fits, .inr ⟨by decide, by decide, fun here => absurd here (by decide), fun here => ?_⟩⟩⟩
  exact absurd here (by decide)

theorem xgqAlloc_within_small :
    ∃ xgq len d', xgqAlloc zeroDevices 4 0 0x1000 200 16 0 0 = .ok (xgq, len, d') ∧
      (len ≤ 200 ↔ len < 2 ^ 32) := by
  have ok : xgqAlloc zeroDevices 4 0 0x1000 200 16 0 0 = .ok (_, _, _) := rfl
  exact ⟨_, _, _, ok, xgqAlloc_within_iff ok (by decide)⟩

theorem Agrees.cq {xgq : Queue} {attached : Except Int (Queue × Devices)}
    (agrees : Agrees xgq attached) : attached.toOption.map (fun result => result.1.xqCq) = some xgq.xqCq := by
  obtain ⟨xgq', d', rfl, -, cq, -⟩ := agrees
  exact congrArg some cq

/-- Two slots of `2 ^ 31` bytes pass for a ring of 100 bytes, and the attacher puts the CQ
where the SQ is. With a producer register of the CQ at the interrupt register of the SQ the
attacher finds an entry that is not there. -/
theorem alloc_attach_disagree :
    (∃ xgq len d', xgqAlloc zeroDevices 4 0 0x1000 100 0x80000000 0 0 = .ok (xgq, len, d') ∧
      ¬ Agrees xgq (xgqAttach d' (unattached 0) 4 0x1000 0 0)) ∧
    ∃ xgq len d', xgqAlloc zeroDevices 0 0 0x1000 200 16 0x2000 0x200C = .ok (xgq, len, d') ∧
      ¬ Agrees xgq (xgqAttach d' (unattached 0) 0 0x1000 0x2000 0x200C) := by
  refine ⟨⟨_, _, _, rfl, fun agrees => ?_⟩, _, _, _, rfl, fun agrees => ?_⟩
  -- 31 rounds of the count of slots
  · exact absurd agrees.cq (by decide +kernel)
  · exact absurd agrees.cq (by decide)

end Xrt.Xgq.Layout
