import Mathlib.Data.BitVec
import Xrt.Bo.Copy

/-!
# Sub-buffers of sub-buffers

A sub-buffer has the handle of its parent, and so that of the root of a chain of sub-buffers. Its
host pointer is that of its parent plus its offset, a sync goes from parent to parent up to the
root, and both add all the offsets up. The device address adds only its own offset to that of the
root.

The root of a chain may be a no-DMA buffer, which syncs by copying between a host-only and a
device-only buffer.
-/
namespace Xrt.Bo

open Lib

inductive RootKind
  | ordinary
  | nodma
deriving DecidableEq, Repr

/-- The bytes that a root of a size moves when it is asked to sync `sz` of them. -/
def RootKind.moved (kind : RootKind) (size : BitVec 64) (dir : SyncDirection) (sz : BitVec 64) :
    BitVec 64 :=
  match kind, dir with
  | .nodma, .toDevice => size
  | _, _ => sz

/-- `bo_impl::sync` and `buffer_nodma::sync`. -/
def RootKind.sync (kind : RootKind) (handle : BufferHandle) (size : BitVec 64)
    (dir : SyncDirection) (sz offset : BitVec 64) (mem : Memories) : Memories :=
  handle.sync dir (kind.moved size dir sz).toNat offset mem

namespace BoImpl

def rootSize : BoImpl → BitVec 64
  | plain _ size => size
  | sub parent _ _ => parent.rootSize

def isSub : BoImpl → Bool
  | plain _ _ => false
  | sub _ _ _ => true

/-- `sync` with that of the root. `none`: throws. -/
def syncVia (root : SyncDirection → BitVec 64 → BitVec 64 → Memories → Memories) :
    BoImpl → SyncDirection → BitVec 64 → BitVec 64 → Memories → Option Memories
  | plain _ _, dir, sz, offset, mem => some (root dir sz offset mem)
  | sub parent _ own, dir, sz, offset, mem =>
    let off := offset + own
    if off + sz > parent.getSize then none
    else parent.syncVia root dir sz off mem

def syncAs (kind : RootKind) (bo : BoImpl) (dir : SyncDirection) (sz offset : BitVec 64)
    (mem : Memories) : Option Memories :=
  bo.syncVia (kind.sync bo.handle bo.rootSize) dir sz offset mem

/-- Sub-buffers with their sizes and offsets, each made from the one before it. -/
def nested (root : BoImpl) (subs : List (BitVec 64 × BitVec 64)) : Option BoImpl :=
  subs.foldlM (fun parent sub => parent.createSub sub.1 sub.2) root

def offsets (subs : List (BitVec 64 × BitVec 64)) : BitVec 64 := (subs.map Prod.snd).sum

variable {root bo : BoImpl} {subs : List (BitVec 64 × BitVec 64)} {sz offset hbuf : BitVec 64}
  {dir : SyncDirection} {mem : Memories} {kind : RootKind}

/-! ### Chains -/

theorem createSub_eq {size own : BitVec 64} (created : root.createSub size own = some bo) :
    bo = sub root size own := by
  unfold createSub at created
  split_ifs at created
  exact (Option.some.inj created).symm

theorem nested_cons_iff (s : BitVec 64 × BitVec 64) :
    nested root (s :: subs) = some bo
      ↔ ∃ first, root.createSub s.1 s.2 = some first ∧ nested first subs = some bo := by
  unfold nested
  rw [List.foldlM_cons]
  exact Option.bind_eq_some_iff

theorem nested_start (created : nested root subs = some bo) :
    bo.handle = root.handle ∧ bo.start = root.start + offsets subs := by
  induction subs generalizing root with
  | nil =>
    cases created
    exact ⟨rfl, (BitVec.add_zero _).symm⟩
  | cons s subs ih =>
    obtain ⟨first, made, rest⟩ := (nested_cons_iff s).mp created
    obtain ⟨handle, start⟩ := ih rest
    cases createSub_eq made
    refine ⟨handle, start.trans ?_⟩
    rw [BoImpl.start, offsets, offsets, List.map_cons, List.sum_cons, BitVec.add_assoc]

/-- The offset of the last sub-buffer alone. -/
theorem nested_getOffset (plain : root.getOffset = 0) (created : nested root subs = some bo) :
    offsets subs = offsets subs.dropLast + bo.getOffset := by
  rcases List.eq_nil_or_concat subs with rfl | ⟨front, last, rfl⟩
  · cases created
    rw [plain]
    rfl
  · rw [List.concat_eq_append] at created ⊢
    unfold nested at created
    rw [List.foldlM_append] at created
    obtain ⟨parent, -, made⟩ := Option.bind_eq_some_iff.mp created
    rw [List.foldlM_cons] at made
    obtain ⟨whole, first, done⟩ := Option.bind_eq_some_iff.mp made
    cases done
    cases createSub_eq first
    rw [List.dropLast_concat, offsets, offsets, List.map_append, List.sum_append, getOffset,
      List.map_singleton, List.sum_singleton]

theorem syncVia_eq (via : SyncDirection → BitVec 64 → BitVec 64 → Memories → Memories)
    (bo : BoImpl) (dir : SyncDirection) (sz offset : BitVec 64) (mem : Memories) :
    bo.syncVia via dir sz offset mem
      = if bo.syncs sz offset then some (via dir sz (offset + bo.start) mem) else none := by
  induction bo generalizing offset with
  | plain h size =>
    have unchanged : offset + 0 = offset := BitVec.add_zero offset
    rw [syncVia, syncs, if_pos rfl, start, unchanged]
  | sub parent size own ih =>
    rw [syncVia, syncs, ih, start]
    by_cases inside : offset + own + sz ≤ parent.getSize
    · have order : offset + own + parent.start = offset + (parent.start + own) := by
        rw [BitVec.add_assoc, BitVec.add_comm own]
      simp [inside, order]
    · simp [inside]

/-- For every chain of sub-buffers, the host pointer and the offset that a sync reaches the root with
are those of the root plus all the offsets. So is the device address exactly if the offsets of all
but the last one add up to zero. -/
theorem sub_buffer_coherent_iff (handle : BufferHandle) (size : BitVec 64)
    (subs : List (BitVec 64 × BitVec 64)) (bo : BoImpl)
    (created : nested (plain handle size) subs = some bo) :
    bo.getHbuf = handle.hbuf.map (· + offsets subs)
      ∧ (∀ root dir sz o mem, bo.syncVia root dir sz o mem = none
          ∨ bo.syncVia root dir sz o mem = some (root dir sz (offsets subs + o) mem))
      ∧ (bo.getAddress = handle.paddr + offsets subs ↔ offsets subs.dropLast = 0) := by
  obtain ⟨same, start⟩ := nested_start created
  have total : bo.start = offsets subs := start.trans (BitVec.zero_add _)
  refine ⟨?_, fun root dir sz o mem => ?_, ?_⟩
  · rw [getHbuf_eq, same, total]
    rfl
  · rw [syncVia_eq, total, BitVec.add_comm o]
    split
    · exact Or.inr rfl
    · exact Or.inl rfl
  · have last := nested_getOffset rfl created
    have address : bo.getAddress = handle.paddr + bo.getOffset := by
      rw [getAddress, same]
      rfl
    rw [address, last]
    constructor <;> intro equal <;> bv_omega

theorem sub_buffer_coherent_at_zero :
    nested (plain ⟨0x1000, some 0x40⟩ 16) [(8, 0), (4, 4)]
        = some (sub (sub (plain ⟨0x1000, some 0x40⟩ 16) 8 0) 4 4)
      ∧ (sub (sub (plain ⟨0x1000, some 0x40⟩ 16) 8 0) 4 4).getAddress = 0x1004 :=
  ⟨rfl, (sub_buffer_coherent_iff ⟨0x1000, some 0x40⟩ 16 [(8, 0), (4, 4)] _ rfl).2.2.mpr rfl⟩

/-- A sub-buffer at 4 of one at 8: the host writes at 12, a kernel gets the address of 4. -/
theorem nested_sub_address_misses :
    ∃ bo, nested (plain ⟨0x1000, some 0x40⟩ 16) [(8, 8), (4, 4)] = some bo
      ∧ bo.getHbuf = some 0x4c ∧ bo.getAddress = 0x1004
      ∧ bo.getAddress ≠ 0x1000 + offsets [(8, 8), (4, 4)] :=
  ⟨_, rfl, rfl, rfl, by decide⟩

/-! ### What a sync transfers -/

def Within (bo : BoImpl) (sz offset : BitVec 64) : Prop :=
  offset.toNat + sz.toNat ≤ bo.getSize.toNat

/-- The range of the buffer from its host side, at `hbuf`, to its device side, or back. -/
def exactSync (bo : BoImpl) (hbuf : BitVec 64) (dir : SyncDirection) (n : Nat) (offset : BitVec 64)
    (mem : Memories) : Memories :=
  match dir with
  | .toDevice =>
    { mem with
      device := transfer mem.host mem.device (hbuf + offset)
        (bo.handle.paddr + bo.start + offset) n }
  | .fromDevice =>
    { mem with
      host := transfer mem.device mem.host (bo.handle.paddr + bo.start + offset)
        (hbuf + offset) n }

theorem syncAs_eq (found : bo.getHbuf = some hbuf) :
    bo.syncAs kind dir sz offset mem = if bo.syncs sz offset
      then some (bo.exactSync hbuf dir (kind.moved bo.rootSize dir sz).toNat offset mem)
      else none := by
  have moves : kind.sync bo.handle bo.rootSize dir sz (offset + bo.start) mem
      = bo.exactSync hbuf dir (kind.moved bo.rootSize dir sz).toNat offset mem := by
    unfold RootKind.sync exactSync
    cases dir with
    | toDevice => exact sync_toDevice found _
    | fromDevice => exact sync_fromDevice found _
  rw [syncAs, syncVia_eq, moves]

/-- Transfers between two memories tell their lengths apart. -/
theorem transfer_length (src dst : BitVec 64) {n k : Nat} (less : n < k) (small : k ≤ 2 ^ 64)
    (source into : ByteMem) (differ : ∀ a b, source a ≠ into b) :
    transfer source into src dst n ≠ transfer source into src dst k := by
  intro same
  -- the first byte behind the shorter one
  have byte := congrFun same (dst + BitVec.ofNat 64 n)
  have place : (dst + BitVec.ofNat 64 n - dst).toNat = n := by bv_omega
  rw [transfer, transfer, place, if_neg (lt_irrefl n), if_pos less] at byte
  exact differ _ _ byte.symm

theorem exactSync_length {n k : Nat} (small : n < 2 ^ 64) (small' : k < 2 ^ 64) :
    (∀ mem, bo.exactSync hbuf dir n offset mem = bo.exactSync hbuf dir k offset mem) ↔ n = k := by
  refine ⟨fun same => ?_, fun equal mem => by rw [equal]⟩
  by_contra different
  have differ : ∀ a b : BitVec 64, (fun _ => (1 : Byte)) a ≠ (fun _ => (0 : Byte)) b := by simp
  cases dir with
  | toDevice =>
    have device := congrArg Memories.device (same ⟨fun _ => 0, fun _ => 1⟩)
    rcases Nat.lt_or_gt_of_ne different with less | less
    · exact transfer_length (hbuf + offset) _ less small'.le _ _ differ device
    · exact transfer_length (hbuf + offset) _ less small.le _ _ differ device.symm
  | fromDevice =>
    have host := congrArg Memories.host (same ⟨fun _ => 1, fun _ => 0⟩)
    rcases Nat.lt_or_gt_of_ne different with less | less
    · exact transfer_length (bo.handle.paddr + bo.start + offset) _ less small'.le _ _ differ host
    · exact transfer_length (bo.handle.paddr + bo.start + offset) _ less small.le _ _ differ host.symm

theorem moved_eq_iff (size : BitVec 64) :
    (kind.moved size dir sz).toNat = sz.toNat ↔ kind = .ordinary ∨ dir = .fromDevice ∨ sz = size := by
  rw [← BitVec.toNat_inj.symm]
  cases kind <;> cases dir <;> simp [RootKind.moved, eq_comm]

theorem exact_iff (found : bo.getHbuf = some hbuf) :
    (∀ mem, bo.syncAs kind dir sz offset mem
        = some (bo.exactSync hbuf dir sz.toNat offset mem))
      ↔ bo.syncs sz offset = true
        ∧ (kind = .ordinary ∨ dir = .fromDevice ∨ sz = bo.rootSize) := by
  simp only [syncAs_eq found]
  by_cases passes : bo.syncs sz offset = true
  · simp only [if_pos passes, Option.some.injEq]
    rw [exactSync_length (BitVec.isLt _) (BitVec.isLt _), moved_eq_iff, and_iff_right passes]
  · refine iff_of_false (fun all => ?_) fun both => passes both.1
    have refused := all ⟨fun _ => 0, fun _ => 0⟩
    rw [if_neg passes] at refused
    cases refused

/-- A sync inside of a buffer moves exactly the range, and a sub-buffer refuses one that is not
inside of it, exactly if the parents accept the range in the one case and do not in the other, and
a no-DMA buffer is synced from the device or as a whole. -/
theorem sync_exact_iff (kind : RootKind) (bo : BoImpl) (hbuf : BitVec 64) (dir : SyncDirection)
    (sz offset : BitVec 64) (found : bo.getHbuf = some hbuf) :
    ((bo.Within sz offset → ∀ mem, bo.syncAs kind dir sz offset mem
          = some (bo.exactSync hbuf dir sz.toNat offset mem))
        ∧ (bo.isSub = true → ¬ bo.Within sz offset → ∀ mem, bo.syncAs kind dir sz offset mem = none))
      ↔ (bo.Within sz offset → bo.syncs sz offset = true
          ∧ (kind = .ordinary ∨ dir = .fromDevice ∨ sz = bo.rootSize))
        ∧ (bo.isSub = true → ¬ bo.Within sz offset → bo.syncs sz offset = false) := by
  refine and_congr (forall_congr' fun _ => exact_iff found) ?_
  refine forall_congr' fun _ => forall_congr' fun _ => ?_
  simp only [syncAs_eq found]
  cases bo.syncs sz offset
  · simp
  · simp only [if_true, reduceCtorEq, iff_false, not_forall]
    exact ⟨⟨fun _ => 0, fun _ => 0⟩, not_false⟩

/-- The second half of an ordinary buffer of 16 bytes, to the device. -/
theorem sub_sync_exact :
    (sub (plain ⟨0x1000, some 0x40⟩ 16) 8 8).syncAs .ordinary .toDevice 4 2 ⟨fun _ => 0, fun _ => 1⟩
      = some ((sub (plain ⟨0x1000, some 0x40⟩ 16) 8 8).exactSync 0x48 .toDevice 4 2
          ⟨fun _ => 0, fun _ => 1⟩) := by
  refine ((sync_exact_iff .ordinary (sub (plain ⟨0x1000, some 0x40⟩ 16) 8 8) 0x48 .toDevice 4 2
    rfl).mpr ⟨fun _ => ⟨by decide, .inl rfl⟩, fun _ outside => ?_⟩).1 ?_ _
  · exact absurd (by decide : 2 + 4 ≤ 8) outside
  · exact (by decide : 2 + 4 ≤ 8)

/-- A no-DMA buffer of 16 bytes that syncs its first 4 to the device overwrites byte 8 as well, and a
sub-buffer of its first 4 bytes accepts a sync of 8. -/
theorem nodma_sync_overwrites :
    (∃ after, (plain ⟨0x1000, some 0x40⟩ 16).syncAs .nodma .toDevice 4 0 ⟨fun _ => 0, fun _ => 1⟩
        = some after ∧ after.device 0x1008 = 1)
      ∧ createSub (plain ⟨0x1000, some 0x40⟩ 16) 4 0 = some (sub (plain ⟨0x1000, some 0x40⟩ 16) 4 0)
      ∧ ∃ after, (sub (plain ⟨0x1000, some 0x40⟩ 16) 4 0).syncAs .ordinary .toDevice 8 0
          ⟨fun _ => 0, fun _ => 1⟩ = some after ∧ after.device 0x1007 = 1 :=
  ⟨⟨_, rfl, by decide⟩, rfl, ⟨_, rfl, by decide⟩⟩

end BoImpl

end Xrt.Bo
