import Mathlib.Data.FinEnum
import Xrt.Xgq.Layout

/-!
# A group of XGQs

`xgq_group_alloc` lays the rings of several queues out one behind the other, all with the same
number of slots. The number comes from sums of ring lengths that are kept in 32 bits.
-/
namespace Xrt.Xgq.Layout

open Lib

/-- The last loop of `xgq_group_alloc`. -/
def groupInit (flags ioHdl : BitVec 64) (numslots : BitVec 32) :
    ByteMem → BitVec 64 → List (BitVec 32) → List Queue × BitVec 64 × ByteMem
  | m, raddr, [] => ([], raddr, m)
  | m, raddr, size :: sizes =>
    let (xgq, m) := xgqInit m flags ioHdl raddr numslots size 0 0
    let raddr := raddr + BitVec.ofNat 64 (xgqRingLen numslots.toNat size.toNat)
    let (xgqs, raddr, m) := groupInit flags ioHdl numslots m raddr sizes
    (xgq :: xgqs, raddr, m)

/-- The queues, the length of the rings, and the memory. -/
def xgqGroupAlloc (d : Devices) (flags ioHdl ringAddr : BitVec 64) (ringLen : Nat)
    (slotSizes : List (BitVec 32)) (maxSlots : BitVec 32) :
    Except Int (List Queue × BitVec 64 × Devices) :=
  let flags := flags ||| XGQ_IN_MEM_PROD.setWidth 64
  if slotSizes.any fun size => size.toNat % 4 ≠ 0 then .error (-EINVAL)
  else
    let numslots := xgqAllocNumSlots ringLen slotSizes
    if numslots.toNat < 2 then .error (-E2BIG)
    else
      let numslots := if maxSlots ≠ 0 ∧ maxSlots.toNat < numslots.toNat then maxSlots else numslots
      let (xgqs, raddr, m) := groupInit flags ioHdl numslots (d ioHdl) ringAddr slotSizes
      .ok (xgqs, raddr - ringAddr, Function.update d ioHdl m)

/-! ### The number of slots -/

/-- The sum of the ring lengths. -/
def exactLen (numslots : Nat) (slotSizes : List (BitVec 32)) : Nat :=
  (slotSizes.map fun size => xgqRingLen numslots size.toNat).sum

/-- The first power of two whose rings are longer than `rlen` is seen to be so in 32 bits. -/
def NoWrap (rlen : Nat) (slotSizes : List (BitVec 32)) : Prop :=
  ∀ j, 1 ≤ j → j ≤ 30 → (∀ i, 1 ≤ i → i < j → exactLen (2 ^ i) slotSizes ≤ rlen) →
    rlen < exactLen (2 ^ j) slotSizes → rlen < exactLen (2 ^ j) slotSizes % 2 ^ 32

theorem exactLen_cons (numslots : Nat) (size : BitVec 32) (sizes : List (BitVec 32)) :
    exactLen numslots (size :: sizes) = xgqRingLen numslots size.toNat + exactLen numslots sizes :=
  List.sum_cons

theorem totalLen_toNat (numslots : BitVec 32) (slotSizes : List (BitVec 32)) :
    (totalLen numslots slotSizes).toNat = exactLen numslots.toNat slotSizes % 2 ^ 32 := by
  have sum : ∀ total : BitVec 32, (slotSizes.foldl (fun total size =>
      total + BitVec.ofNat 32 (xgqRingLen numslots.toNat size.toNat)) total).toNat
        = (total.toNat + exactLen numslots.toNat slotSizes) % 2 ^ 32 := by
    induction slotSizes with
    | nil => exact fun total => (Nat.mod_eq_of_lt total.isLt).symm
    | cons size sizes ih =>
      intro total
      rw [List.foldl_cons, ih, BitVec.toNat_add, BitVec.toNat_ofNat, exactLen_cons]
      omega
  rw [totalLen, sum]
  exact congrArg (· % 2 ^ 32) (Nat.zero_add _)

variable {k ringLen : Nat} {slotSizes : List (BitVec 32)} {ringAddr : BitVec 64} {d : Devices}

theorem totalLen_pow (small : k ≤ 31) (slotSizes : List (BitVec 32)) :
    (totalLen (BitVec.ofNat 32 (2 ^ k)) slotSizes).toNat = exactLen (2 ^ k) slotSizes % 2 ^ 32 := by
  have bound : 2 ^ k ≤ 2 ^ 31 := Nat.pow_le_pow_right (by decide) small
  rw [totalLen_toNat, BitVec.toNat_ofNat, Nat.mod_eq_of_lt (Nat.lt_of_le_of_lt bound (by decide))]

theorem exactLen_mono {m n : Nat} (le : m ≤ n) (slotSizes : List (BitVec 32)) :
    exactLen m slotSizes ≤ exactLen n slotSizes :=
  List.sum_le_sum fun _ _ => Nat.add_le_add_left (Nat.mul_le_mul_right _ le) HEADER_SIZE

variable {rlen : Nat} {sizes : List (BitVec 32)} {maxSlots : BitVec 32}

theorem exactLen_le (noWrap : NoWrap rlen slotSizes) (small : k ≤ 30)
    (within : ∀ l, 1 ≤ l → l ≤ k → (totalLen (BitVec.ofNat 32 (2 ^ l)) slotSizes).toNat ≤ rlen)
    (l : Nat) (positive : 1 ≤ l) (le : l ≤ k) : exactLen (2 ^ l) slotSizes ≤ rlen := by
  induction l using Nat.strong_induction_on with
  | _ l ih =>
    by_contra exceeds
    have seen := noWrap l positive (by omega) (fun i above below => ih i below above (by omega))
      (by omega)
    have total := within l positive le
    rw [totalLen_pow (by omega)] at total
    omega

/-- **The number of slots is a power of two, and the largest one that fits, up to `2 ^ 30`, exactly
if no sum wraps around.** -/
theorem xgqAllocNumSlots_exact_iff (rlen : Nat) (slotSizes : List (BitVec 32)) :
    (∃ k, (xgqAllocNumSlots rlen slotSizes).toNat = 2 ^ k)
      ∧ ((2 ≤ (xgqAllocNumSlots rlen slotSizes).toNat →
          exactLen (xgqAllocNumSlots rlen slotSizes).toNat slotSizes ≤ rlen)
        ∧ ((xgqAllocNumSlots rlen slotSizes).toNat < 2 ^ 30 →
          rlen < exactLen (2 * (xgqAllocNumSlots rlen slotSizes).toNat) slotSizes)
        ↔ NoWrap rlen slotSizes) := by
  obtain ⟨k, small, power, within, exceeds⟩ := xgqAllocNumSlots_spec rlen slotSizes
  rw [power]
  refine ⟨⟨k, rfl⟩, fun ⟨fits, _⟩ j positive bound before longer => ?_, fun noWrap => ⟨?_, ?_⟩⟩
  · -- the search has stopped before `j`, or gone on although the rings were too long
    rcases Nat.lt_or_ge k j with less | more
    · have total := exceeds (by omega)
      rw [totalLen_pow (by omega)] at total
      rcases Nat.eq_or_lt_of_le (show k + 1 ≤ j from less) with rfl | later
      · exact total
      · have exact' := before (k + 1) (by omega) later
        have cut := Nat.mod_le (exactLen (2 ^ (k + 1)) slotSizes) (2 ^ 32)
        omega
    · have pow : 2 ^ j ≤ 2 ^ k := Nat.pow_le_pow_right (by decide) more
      have two : 2 ^ 1 ≤ 2 ^ j := Nat.pow_le_pow_right (by decide) positive
      have mono := exactLen_mono pow slotSizes
      have whole := fits (by omega)
      omega
  · intro two
    have positive : 1 ≤ k := by
      rcases Nat.eq_zero_or_pos k with rfl | positive
      · exact absurd two (by decide)
      · exact positive
    exact exactLen_le noWrap small within k positive (le_refl k)
  · intro less
    have below : k < 30 := (Nat.pow_lt_pow_iff_right (by decide)).mp less
    have total := exceeds below
    rw [totalLen_pow (by omega), Nat.pow_succ, Nat.mul_comm] at total
    exact Nat.lt_of_lt_of_le total (Nat.mod_le _ _)

/-- With a slot size of 0x7FFFFFF0 every sum is 44 in 32 bits, and in a ring of 4 GiB all counts
pass. -/
theorem xgqAllocNumSlots_wraps :
    (xgqAllocNumSlots 100 [0x7FFFFFF0]).toNat = 2 ^ 30 ∧ 100 < exactLen (2 ^ 30) [0x7FFFFFF0]
      ∧ (xgqAllocNumSlots (2 ^ 32) [16]).toNat = 2 ^ 30 ∧ 2 ^ 32 < exactLen (2 ^ 30) [16] := by
  decide +kernel

/-! ### The rings -/

/-- The bytes of a queue: its header and the slots of its two rings. -/
def Queue.bytes (xgq : Queue) : Set (BitVec 64) :=
  region xgq.xqHeaderAddr (xgqRingLen xgq.xqSq.xrSlotNum.toNat xgq.xqSq.xrSlotSz.toNat)

/-- The addresses between two offsets. -/
def span (base : BitVec 64) (lo hi : Nat) : Set (BitVec 64) :=
  {a | lo ≤ (a - base).toNat ∧ (a - base).toNat < hi}

section Memory

variable {m m' : ByteMem} {a b : BitVec 64}

theorem write32_outside (v : BitVec 32) (outside : 4 ≤ (b - a).toNat) : write32 m a v b = m b :=
  if_neg (by omega)

theorem writeWords_outside (ws : List (BitVec 32))
    (outside : ∀ k < ws.length, 4 ≤ (b - wordAt a k).toNat) : writeWords m a ws b = m b := by
  induction ws generalizing m a with
  | nil => rfl
  | cons w ws ih =>
    have first := outside 0 (Nat.succ_pos _)
    rw [wordAt_zero] at first
    rw [writeWords, ih, write32_outside w first]
    intro k small
    rw [← wordAt_succ]
    exact outside (k + 1) (Nat.succ_lt_succ small)

theorem toNat_offset {off : Nat} (fits : off + b.toNat < 2 ^ 64) :
    (a + BitVec.ofNat 64 off + b - a).toNat = off + b.toNat := by
  have cancel : a + BitVec.ofNat 64 off + b - a = BitVec.ofNat 64 off + b := by bv_omega
  rw [cancel, BitVec.toNat_add, BitVec.toNat_ofNat, Nat.mod_eq_of_lt (by omega : off < 2 ^ 64),
    Nat.mod_eq_of_lt fits]

theorem read32_congr (same : ∀ i : BitVec 64, i.toNat < 4 → m' (a + i) = m (a + i)) :
    read32 m' a = read32 m a := by
  have zero : m' a = m a := by simpa using same 0 (by decide)
  rw [read32, read32, same 3 (by decide), same 2 (by decide), same 1 (by decide), zero]

end Memory

variable {flags ioHdl base : BitVec 64} {n size : BitVec 32} {m : ByteMem}

theorem xgqInit_outside (inMem : isInMemProd (flags.setWidth 32) = true) {a : BitVec 64}
    (outside : HEADER_SIZE ≤ (a - ringAddr).toNat) :
    (xgqInit m flags ioHdl ringAddr n size 0 0).2 a = m a := by
  have word : ∀ k < 11, 4 ≤ (a - wordAt ringAddr k).toNat := by
    intro k small
    unfold HEADER_SIZE at outside
    unfold wordAt
    bv_omega
  have first := word 0 (by decide)
  have sq : 4 ≤ (a - (ringAddr + 24)).toNat := word 6 (by decide)
  have cq : 4 ≤ (a - (ringAddr + 28)).toNat := word 7 (by decide)
  rw [wordAt_zero] at first
  rw [(xgqInit_eq m flags ioHdl ringAddr n size 0 0).1, finish, write32_outside _ first,
    write32_outside _ cq, write32_outside _ sq, headerImage, if_pos inMem]
  exact writeWords_outside _ word

/-- What the loop leaves between two offsets: the queues lie one behind the other, their headers
are intact, and no other byte has changed. -/
structure Laid (flags base : BitVec 64) (n : BitVec 32) (lo hi : Nat) (m : ByteMem)
    (xgqs : List Queue) (m' : ByteMem) : Prop where
  apart : xgqs.Pairwise fun p q => Disjoint p.bytes q.bytes
  inside : ∀ q ∈ xgqs, q.bytes ⊆ span base lo hi
  header : ∀ q ∈ xgqs, HeaderAt m' q.xqHeaderAddr (flags.setWidth 32) n q.xqSq.xrSlotSz
  frame : ∀ a ∉ span base lo hi, m' a = m a

theorem groupInit_laid (inMem : isInMemProd (flags.setWidth 32) = true) (ioHdl base : BitVec 64)
    (n : BitVec 32) (sizes : List (BitVec 32)) (m : ByteMem) (lo : Nat) (fits : lo + exactLen n.toNat sizes ≤ 2 ^ 64) :
    Laid flags base n lo (lo + exactLen n.toNat sizes) m
      (groupInit flags ioHdl n m (base + BitVec.ofNat 64 lo) sizes).1
      (groupInit flags ioHdl n m (base + BitVec.ofNat 64 lo) sizes).2.2 := by
  induction sizes generalizing m lo with
  | nil => exact ⟨.nil, by simp [groupInit], by simp [groupInit], fun _ _ => rfl⟩
  | cons size sizes ih =>
    have least : HEADER_SIZE ≤ xgqRingLen n.toNat size.toNat := Nat.le_add_right _ _
    rw [exactLen_cons] at fits ⊢
    generalize length : xgqRingLen n.toNat size.toNat = len at fits least ⊢
    have next : base + BitVec.ofNat 64 lo + BitVec.ofNat 64 len
        = base + BitVec.ofNat 64 (lo + len) := by rw [BitVec.add_assoc, BitVec.ofNat_add]
    rw [groupInit, length, next]
    dsimp only
    have made := xgqInit_headerAt m flags ioHdl (base + BitVec.ofNat 64 lo) n size 0 0
    generalize init : xgqInit m flags ioHdl (base + BitVec.ofNat 64 lo) n size 0 0 = first at made ⊢
    obtain ⟨xgq, m₁⟩ := first
    have queue : xgq.xqHeaderAddr = base + BitVec.ofNat 64 lo ∧ xgq.xqSq.xrSlotSz = size
        ∧ xgq.xqSq.xrSlotNum = n := by
      rw [show xgq = _ from congrArg Prod.fst init.symm]
      exact ⟨rfl, rfl, rfl⟩
    have bytes : xgq.bytes = span base lo (lo + len) := by
      ext a
      rw [Queue.bytes, queue.1, queue.2.1, queue.2.2, length]
      exact mem_region_add (by omega)
    have rest := ih m₁ (lo + len) (by omega)
    rw [Nat.add_assoc] at rest
    generalize groupInit flags ioHdl n m₁ (base + BitVec.ofNat 64 (lo + len)) sizes = tail at rest ⊢
    refine ⟨.cons ?_ rest.apart, ?_, ?_, ?_⟩
    · intro q member
      rw [bytes, Set.disjoint_left]
      exact fun a here there => Nat.not_lt.mpr (rest.inside q member there).1 here.2
    · intro q member a inside
      rcases List.mem_cons.mp member with rfl | later
      · rw [bytes] at inside
        exact ⟨inside.1, by have := inside.2; omega⟩
      · have there := rest.inside q later inside
        exact ⟨by have := there.1; omega, there.2⟩
    · intro q member
      rcases List.mem_cons.mp member with rfl | later
      · rw [queue.1, queue.2.1]
        -- the later rings begin behind the header
        have kept : ∀ k < 11, read32 tail.2.2 (wordAt (base + BitVec.ofNat 64 lo) k)
            = read32 m₁ (wordAt (base + BitVec.ofNat 64 lo) k) := by
          intro k small
          refine read32_congr fun i word => rest.frame _ fun there => ?_
          have low := there.1
          unfold HEADER_SIZE at least
          rw [wordAt, BitVec.add_assoc base, ← BitVec.ofNat_add, toNat_offset (by omega)] at low
          omega
        refine ⟨(kept 0 (by decide)).trans made.magic, fun k member => ?_⟩
        refine (kept k ?_).trans (made.word k member)
        simp only [List.mem_cons, List.not_mem_nil, or_false] at member
        omega
      · exact rest.header q later
    · intro a outside
      rw [rest.frame a fun there => outside ⟨by have := there.1; omega, there.2⟩]
      rw [show m₁ = _ from congrArg Prod.snd init.symm]
      refine xgqInit_outside inMem ?_
      by_contra close
      have near : a ∈ region (base + BitVec.ofNat 64 lo) len := by
        change (a - (base + BitVec.ofNat 64 lo)).toNat < len
        omega
      have here := (mem_region_add (by omega)).mp near
      exact outside ⟨here.1, by have := here.2; omega⟩

theorem isInMemProd_or (flags : BitVec 64) :
    isInMemProd ((flags ||| XGQ_IN_MEM_PROD.setWidth 64).setWidth 32) = true := by
  have bit : XGQ_IN_MEM_PROD.getLsbD 2 = true := by decide
  simp [isInMemProd, bit]

/-- What `xgq_attach` accepts has a number of slots that is a power of two from two on. -/
theorem xgqAttach_accepts {xgq : Queue} {aflags sqProduced cqProduced : BitVec 64}
    {flags n slotSize : BitVec 32} {attached : Queue × Devices}
    (header : HeaderAt (d xgq.xqIoHdl) ringAddr flags n slotSize)
    (ok : xgqAttach d xgq aflags ringAddr sqProduced cqProduced = .ok attached) :
    ∃ k, 1 ≤ k ∧ n.toNat = 2 ^ k := by
  have slotNum : read32 _ (wordAt ringAddr 2) = n := header.word 2 (by decide)
  have accepted : ¬ (n.toNat < 2 || decide (n &&& (n - 1) ≠ 0)) = true := by
    intro refused
    unfold xgqAttach at ok
    simp only [slotNum, refused, if_true] at ok
    split at ok
    · cases ok
    · split at ok <;> cases ok
  rw [Bool.or_eq_true, not_or, decide_eq_true_iff, decide_eq_true_iff, not_lt, not_not] at accepted
  obtain ⟨two, bits⟩ := accepted
  have pred : (n - 1).toNat = n.toNat - 1 := by bv_omega
  have value := congrArg BitVec.toNat bits
  rw [BitVec.toNat_and, pred] at value
  obtain ⟨k, power⟩ := (Nat.and_sub_one_eq_zero_iff_isPowerOfTwo (by omega)).mp value
  refine ⟨k, Nat.one_le_iff_ne_zero.mpr ?_, power⟩
  rintro rfl
  omega

/-- The rings are disjoint, inside the given length and accepted by `xgq_attach`. -/
def RingsRight (ioHdl ringAddr : BitVec 64) (ringLen : Nat) (xgqs : List Queue) (d : Devices) : Prop :=
  (xgqs.Pairwise fun p q => Disjoint p.bytes q.bytes)
    ∧ ∀ q ∈ xgqs, q.bytes ⊆ region ringAddr ringLen
      ∧ ∀ (old : Queue) (aflags sqProduced cqProduced : BitVec 64), old.xqIoHdl = ioHdl →
        ∃ attached, xgqAttach d old aflags q.xqHeaderAddr sqProduced cqProduced = .ok attached

theorem groupInit_slots (flags ioHdl raddr : BitVec 64) (n : BitVec 32) (m : ByteMem)
    (sizes : List (BitVec 32)) :
    (groupInit flags ioHdl n m raddr sizes).1.map
        (fun q => xgqRingLen q.xqSq.xrSlotNum.toNat q.xqSq.xrSlotSz.toNat)
      = sizes.map fun size => xgqRingLen n.toNat size.toNat := by
  induction sizes generalizing m raddr with
  | nil => rfl
  | cons size sizes ih =>
    rw [groupInit, List.map_cons, List.map_cons]
    exact congrArg₂ _ rfl (ih _ _)

/-- Disjoint rings inside of the memory are together not longer than it. -/
theorem RingsRight.exactLen_le (few : n.toNat ≤ 2 ^ 30) (sizeT : ringLen < 2 ^ 64)
    (right : RingsRight ioHdl ringAddr ringLen (groupInit flags ioHdl n m ringAddr sizes).1 d) :
    exactLen n.toNat sizes ≤ ringLen := by
  have slots := groupInit_slots flags ioHdl ringAddr n m sizes
  generalize (groupInit flags ioHdl n m ringAddr sizes).1 = xgqs at slots right
  have sum := sum_ncard_le (List.pairwise_map.mpr right.1)
    (List.forall_mem_map.mpr fun q member => (right.2 q member).1)
  rw [ncard_region (Nat.le_of_lt sizeT), List.map_map] at sum
  have lengths : xgqs.map (Set.ncard ∘ Queue.bytes)
      = xgqs.map fun q => xgqRingLen q.xqSq.xrSlotNum.toNat q.xqSq.xrSlotSz.toNat := by
    refine List.map_congr_left fun q member => ncard_region ?_
    -- each is one of the lengths of the group
    have known := slots ▸ List.mem_map_of_mem member
    obtain ⟨size, -, same⟩ := List.mem_map.mp known
    have product : n.toNat * (size.toNat + COM_ENTRY_SIZE) ≤ 2 ^ 30 * (2 ^ 32 + COM_ENTRY_SIZE) :=
      Nat.mul_le_mul few (Nat.add_le_add_right (Nat.le_of_lt size.isLt) _)
    rw [← same, xgqRingLen, HEADER_SIZE]
    unfold COM_ENTRY_SIZE at product ⊢
    omega
  rwa [lengths, slots] at sum

theorem groupInit_right_iff (inMem : isInMemProd (flags.setWidth 32) = true)
    (few : n.toNat ≤ 2 ^ 30) (sizeT : ringLen < 2 ^ 64) (some' : sizes ≠ []) :
    RingsRight ioHdl ringAddr ringLen (groupInit flags ioHdl n (d ioHdl) ringAddr sizes).1
        (Function.update d ioHdl (groupInit flags ioHdl n (d ioHdl) ringAddr sizes).2.2)
      ↔ exactLen n.toNat sizes ≤ ringLen ∧ ∃ k, 1 ≤ k ∧ n.toNat = 2 ^ k := by
  have laid (fits : exactLen n.toNat sizes ≤ ringLen) :=
    groupInit_laid inMem ioHdl ringAddr n sizes (d ioHdl) 0 (by omega)
  simp only [Nat.zero_add, BitVec.add_zero] at laid
  constructor
  · intro right
    have fits := right.exactLen_le few sizeT
    refine ⟨fits, ?_⟩
    have slots := congrArg List.length (groupInit_slots flags ioHdl ringAddr n (d ioHdl) sizes)
    rw [List.length_map, List.length_map] at slots
    obtain ⟨q, member⟩ := List.exists_mem_of_length_pos (slots ▸ List.length_pos_iff.mpr some')
    obtain ⟨attached, ok⟩ := (right.2 q member).2 (unattached ioHdl) 0 0 0 rfl
    have header := (laid fits).header q member
    rw [← Function.update_self ioHdl
      (groupInit flags ioHdl n (d ioHdl) ringAddr sizes).2.2 d] at header
    exact xgqAttach_accepts header ok
  · rintro ⟨fits, k, two, value⟩
    refine ⟨(laid fits).apart, fun q member => ⟨fun a inside => ?_, ?_⟩⟩
    · exact Nat.lt_of_lt_of_le ((laid fits).inside q member inside).2 fits
    · rintro old aflags sq cq rfl
      have header := (laid fits).header q member
      rw [← Function.update_self old.xqIoHdl
        (groupInit _ old.xqIoHdl n (d old.xqIoHdl) ringAddr sizes).2.2 d] at header
      obtain ⟨xgq', d'', attached, -⟩ :=
        xgqAttach_ok _ old aflags q.xqHeaderAddr sq cq value two (fun _ => inMem) header
      exact ⟨(xgq', d''), attached⟩

/-- For every power of two that passes in 32 bits, with those below it: the rings fit, unless
`max_slots` is lower, and then that is a power of two from two on. -/
def CountsFit (rlen : Nat) (slotSizes : List (BitVec 32)) (maxSlots : BitVec 32) : Prop :=
  ∀ j, 1 ≤ j → j ≤ 30 → (∀ l, 1 ≤ l → l ≤ j → exactLen (2 ^ l) slotSizes % 2 ^ 32 ≤ rlen) →
    if maxSlots ≠ 0 ∧ maxSlots.toNat < 2 ^ j then ∃ i, 1 ≤ i ∧ maxSlots.toNat = 2 ^ i
    else exactLen (2 ^ j) slotSizes ≤ rlen

/-- The condition speaks of the last power of two that passes. -/
theorem countsFit_iff {n : BitVec 32} (positive : 1 ≤ k) (small : k ≤ 30)
    (within : ∀ l, 1 ≤ l → l ≤ k → exactLen (2 ^ l) slotSizes % 2 ^ 32 ≤ rlen)
    (exceeds : k < 30 → rlen < exactLen (2 ^ (k + 1)) slotSizes % 2 ^ 32)
    (capped : n.toNat = if maxSlots ≠ 0 ∧ maxSlots.toNat < 2 ^ k then maxSlots.toNat else 2 ^ k) :
    CountsFit rlen slotSizes maxSlots
      ↔ exactLen n.toNat slotSizes ≤ rlen ∧ ∃ i, 1 ≤ i ∧ n.toNat = 2 ^ i := by
  constructor
  · intro fit
    have last := fit k positive small within
    split_ifs at last capped with lower
    · obtain ⟨i, two, value⟩ := last
      have less : i < k := (Nat.pow_lt_pow_iff_right (by decide)).mp (value ▸ lower.2)
      have own := fit i two (by omega) fun l above below => within l above (by omega)
      rw [if_neg fun both => absurd both.2 (by omega)] at own
      rw [capped, value]
      exact ⟨own, i, two, rfl⟩
    · rw [capped]
      exact ⟨last, k, positive, rfl⟩
  · rintro ⟨fits, i, two, value⟩ j above bound passes
    have le : j ≤ k := by
      by_contra beyond
      have failed := exceeds (by omega)
      have passed := passes (k + 1) (by omega) (by omega)
      omega
    have pow : 2 ^ j ≤ 2 ^ k := Nat.pow_le_pow_right (by decide) le
    split_ifs with lower
    · rw [if_pos ⟨lower.1, by omega⟩] at capped
      exact ⟨i, two, capped.symm.trans value⟩
    · refine (exactLen_mono ?_ slotSizes).trans fits
      split_ifs at capped with less
      · have high : 2 ^ j ≤ maxSlots.toNat := Nat.le_of_not_lt fun low => lower ⟨less.1, low⟩
        omega
      · omega

/-- **The rings of a group are disjoint, inside the given length and accepted by `xgq_attach`, exactly
if** the rings of the counts that pass fit, up to `max_slots`. -/
theorem xgqGroupAlloc_rings_iff {d' : Devices} {len : BitVec 64} {xgqs : List Queue}
    (ok : xgqGroupAlloc d flags ioHdl ringAddr ringLen slotSizes maxSlots = .ok (xgqs, len, d'))
    (sizeT : ringLen < 2 ^ 64) :
    RingsRight ioHdl ringAddr ringLen xgqs d'
      ↔ slotSizes = [] ∨ CountsFit ringLen slotSizes maxSlots := by
  unfold xgqGroupAlloc at ok
  dsimp only at ok
  split at ok
  · cases ok
  split at ok
  · cases ok
  next enough =>
    obtain ⟨k, small, power, within, exceeds⟩ := xgqAllocNumSlots_spec ringLen slotSizes
    generalize xgqAllocNumSlots ringLen slotSizes = numslots at ok enough power
    have positive : 1 ≤ k := by
      rcases Nat.eq_zero_or_pos k with rfl | positive
      · exact absurd power (by omega)
      · exact positive
    have bound : 2 ^ k ≤ 2 ^ 30 := Nat.pow_le_pow_right (by decide) small
    generalize cap : (if maxSlots ≠ 0 ∧ maxSlots.toNat < numslots.toNat then maxSlots
      else numslots) = n at ok
    rw [power] at cap
    have capped : n.toNat
        = if maxSlots ≠ 0 ∧ maxSlots.toNat < 2 ^ k then maxSlots.toNat else 2 ^ k := by
      rw [← cap, apply_ite BitVec.toNat, power]
    have few : n.toNat ≤ 2 ^ 30 := by
      rw [capped]
      split_ifs with lower
      · exact (Nat.le_of_lt lower.2).trans bound
      · exact bound
    cases ok
    rcases List.eq_nil_or_concat slotSizes with rfl | ⟨front, last, rfl⟩
    · exact iff_of_true ⟨.nil, List.forall_mem_nil _⟩ (.inl rfl)
    · have some' : front.concat last ≠ [] := by simp
      rw [groupInit_right_iff (isInMemProd_or flags) few sizeT some', or_iff_right some']
      refine (countsFit_iff positive small (fun l above below => ?_) (fun less => ?_) capped).symm
      · rw [← totalLen_pow (by omega)]
        exact within l above below
      · rw [← totalLen_pow (by omega)]
        exact exceeds less

/-- Two queues with slots of 16 bytes in 400 bytes: four slots each. -/
theorem xgqGroupAlloc_rings_two : ∃ p q len d',
    xgqGroupAlloc zeroDevices 0 0 0x1000 400 [16, 16] 0 = .ok ([p, q], len, d')
      ∧ len = 344 ∧ Disjoint p.bytes q.bytes := by
  have ok : xgqGroupAlloc zeroDevices 0 0 0x1000 400 [16, 16] 0 = .ok ([_, _], _, _) := rfl
  have fit : CountsFit 400 [16, 16] 0 := by
    intro j above _ passes
    have low : j ≤ 2 := by
      by_contra high
      exact absurd (passes 3 (by decide) (by omega)) (by decide)
    rw [if_neg fun both => both.1 rfl]
    interval_cases j <;> decide
  have rings := ((xgqGroupAlloc_rings_iff ok (by decide)).mpr (.inr fit)).1
  exact ⟨_, _, _, _, ok, by decide, List.rel_of_pairwise_cons rings List.mem_cons_self⟩

/-- With `max_slots` of three the ring is laid out and not accepted. With slots of 0x7FFFFFF0 bytes
it goes far beyond the 100 bytes that are there. -/
theorem xgqGroupAlloc_refused :
    (∃ q len d', xgqGroupAlloc zeroDevices 0 0 0x1000 400 [16] 3 = .ok ([q], len, d')
        ∧ xgqAttach d' (unattached 0) 0 0x1000 0 0 = .error (-EPROTO))
      ∧ ∃ q len d', xgqGroupAlloc zeroDevices 0 0 0x1000 100 [0x7FFFFFF0] 0 = .ok ([q], len, d')
        ∧ 0x2000 ∈ q.bytes ∧ 0x2000 ∉ region 0x1000 100 := by
  refine ⟨⟨_, _, _, rfl, rfl⟩, _, _, _, rfl, ?_, ?_⟩
  · change (0x2000 - 0x1000 : BitVec 64).toNat < xgqRingLen _ _
    decide +kernel
  · change ¬ (0x2000 - 0x1000 : BitVec 64).toNat < 100
    decide

end Xrt.Xgq.Layout
