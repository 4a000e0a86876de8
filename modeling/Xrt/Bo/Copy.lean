import Xrt.Lib.ByteMemory
import Xrt.Lib.Text

/-!
# Copying between buffers

A buffer object copies from another one by M2M, by a KDMA command or through host memory. The first
two name the handles of the buffers and offsets from their starts; a sub-buffer has the handle of
its parent.
-/
namespace Xrt.Bo

open Lib

/-- The buffer behind a handle: where it is on the device, and its host side. A device-only buffer
has none. -/
structure BufferHandle where
  paddr : BitVec 64
  hbuf : Option (BitVec 64)
deriving DecidableEq, Repr

inductive BoImpl
  /-- `buffer_ubuf`, `buffer_hbuf`, `buffer_kbuf` or `buffer_dbuf`. -/
  | plain (handle : BufferHandle) (size : BitVec 64)
  /-- `buffer_sub`. -/
  | sub (parent : BoImpl) (size offset : BitVec 64)
deriving DecidableEq, Repr

structure Memories where
  device : ByteMem
  host : ByteMem

/-- How a call ends. -/
inductive Outcome
  | thrown (message : Text)
  /-- The behaviour is not defined. -/
  | undefined
  | done (mem : Memories)

inductive SyncDirection
  | toDevice
  | fromDevice
deriving DecidableEq, Repr

/-! ### Handles -/

namespace BufferHandle

def copy (dst src : BufferHandle) (size : Nat) (dstOffset srcOffset : BitVec 64)
    (mem : Memories) : Memories :=
  { mem with
    device := transfer mem.device mem.device (src.paddr + srcOffset) (dst.paddr + dstOffset) size }

/-- Moves a range of the buffer between its device and its host side. -/
def sync (handle : BufferHandle) (dir : SyncDirection) (size : Nat) (offset : BitVec 64)
    (mem : Memories) : Memories :=
  match handle.hbuf with
  | none => mem
  | some hbuf =>
    match dir with
    | .toDevice =>
      { mem with
        device := transfer mem.host mem.device (hbuf + offset) (handle.paddr + offset) size }
    | .fromDevice =>
      { mem with
        host := transfer mem.device mem.host (handle.paddr + offset) (hbuf + offset) size }

end BufferHandle

/-! ### Buffer objects -/

namespace BoImpl

def handle : BoImpl → BufferHandle
  | plain handle _ => handle
  | sub parent _ _ => parent.handle

def getSize : BoImpl → BitVec 64
  | plain _ size => size
  | sub _ size _ => size

def getOffset : BoImpl → BitVec 64
  | plain _ _ => 0
  | sub _ _ offset => offset

/-- `none`: throws, as a device-only buffer does. -/
def getHbuf : BoImpl → Option (BitVec 64)
  | plain handle _ => handle.hbuf
  | sub parent _ offset => parent.getHbuf.map (· + offset)

/-- The address of the handle's buffer, and the offset of the object itself. -/
def getAddress (bo : BoImpl) : BitVec 64 := bo.handle.paddr + bo.getOffset

/-- The constructor of `buffer_sub`, which asks the parent for its host buffer. -/
def createSub (parent : BoImpl) (size offset : BitVec 64) : Option BoImpl :=
  if parent.getHbuf.isNone then none
  else if size + offset > parent.getSize then none
  else some (sub parent size offset)

/-- A sub-buffer is synced through its parent. `none`: throws. -/
def sync : BoImpl → SyncDirection → BitVec 64 → BitVec 64 → Memories → Option Memories
  | plain handle _, dir, sz, offset, mem => some (handle.sync dir sz.toNat offset mem)
  | sub parent _ own, dir, sz, offset, mem =>
    let off := offset + own
    if off + sz > parent.getSize then none
    else parent.sync dir sz off mem

end BoImpl

/-! ### The KDMA command -/

structure CopyboCmd where
  srcAddrLo : BitVec 32
  srcAddrHi : BitVec 32
  srcBoHdl : BufferHandle
  dstAddrLo : BitVec 32
  dstAddrHi : BitVec 32
  dstBoHdl : BufferHandle
  size : BitVec 32
  sizeHi : BitVec 32

def ertFillCopyboCmd (srcBo dstBo : BufferHandle) (srcOffset dstOffset : BitVec 64)
    (size : BitVec 32) : CopyboCmd where
  srcAddrLo := srcOffset.setWidth 32
  srcAddrHi := (srcOffset >>> 32 &&& 0xFFFFFFFF).setWidth 32
  srcBoHdl := srcBo
  dstAddrLo := dstOffset.setWidth 32
  dstAddrHi := (dstOffset >>> 32 &&& 0xFFFFFFFF).setWidth 32
  dstBoHdl := dstBo
  size := size
  sizeHi := 0

def ertCopyboSrcOffset (pkt : CopyboCmd) : BitVec 64 :=
  pkt.srcAddrHi.setWidth 64 <<< 32 ||| pkt.srcAddrLo.setWidth 64

def ertCopyboDstOffset (pkt : CopyboCmd) : BitVec 64 :=
  pkt.dstAddrHi.setWidth 64 <<< 32 ||| pkt.dstAddrLo.setWidth 64

def ertCopyboSize (pkt : CopyboCmd) : Nat := pkt.size.toNat

/-- The command, once it has run. -/
def CopyboCmd.exec (pkt : CopyboCmd) (mem : Memories) : Memories :=
  pkt.dstBoHdl.copy pkt.srcBoHdl (ertCopyboSize pkt) (ertCopyboDstOffset pkt)
    (ertCopyboSrcOffset pkt) mem

/-- The size of the command is a 32-bit parameter. -/
def copyBoWithKdma (sz : BitVec 64) (dstBo : BufferHandle) (dstOffset : BitVec 64)
    (srcBo : BufferHandle) (srcOffset : BitVec 64) (mem : Memories) : Memories :=
  (ertFillCopyboCmd srcBo dstBo srcOffset dstOffset (sz.setWidth 32)).exec mem

/-! ### The copy of a buffer object -/

/-- Two ranges of one size have a byte in common. -/
def Overlap (a b sz : BitVec 64) : Prop := (a - b).toNat < sz.toNat ∨ (b - a).toNat < sz.toNat

instance (a b sz : BitVec 64) : Decidable (Overlap a b sz) := inferInstanceAs (Decidable (_ ∨ _))

namespace BoImpl

def copyThroughHost (dst src : BoImpl) (sz srcOffset dstOffset : BitVec 64) (mem : Memories) :
    Outcome :=
  match src.getHbuf, dst.getHbuf with
  | some srcHbuf, some dstHbuf =>
    if srcHbuf = 0 then .thrown (ascii "No host side buffer in source buffer")
    else if dstHbuf = 0 then .thrown (ascii "No host side buffer in destination buffer")
    else
      match src.sync .fromDevice sz srcOffset mem with
      | none => .thrown (ascii "Invalid offset and size when syncing sub buffer")
      | some mem =>
        -- memcpy
        if Overlap (dstHbuf + dstOffset) (srcHbuf + srcOffset) sz then .undefined
        else
          let mem := { mem with
            host := transfer mem.host mem.host (srcHbuf + srcOffset) (dstHbuf + dstOffset)
              sz.toNat }
          match dst.sync .toDevice sz dstOffset mem with
          | none => .thrown (ascii "Invalid offset and size when syncing sub buffer")
          | some mem => .done mem
  | _, _ => .thrown (ascii "device only buffer has no host buffer")

/-- What a device can do: whether it has M2M and its copy works, and whether KDMA is configured and
its command works. -/
structure Paths where
  m2m : Bool
  kdma : Bool
deriving DecidableEq, Repr

/-- The checks of `copy`. -/
def copyError (dst src : BoImpl) (sz srcOffset dstOffset : BitVec 64) : Option Text :=
  if sz = 0 then some (ascii "size must be a positive number")
  else if sz + dstOffset > dst.getSize then some (ascii "copying past destination buffer size")
  else if src.getSize < sz + srcOffset then some (ascii "copying past source buffer size")
  else none

/-- Both buffers are on one device and not imported. -/
def copy (paths : Paths) (dst src : BoImpl) (sz srcOffset dstOffset : BitVec 64)
    (mem : Memories) : Outcome :=
  match copyError dst src sz srcOffset dstOffset with
  | some message => .thrown message
  | none =>
    if paths.m2m then .done (dst.handle.copy src.handle sz.toNat dstOffset srcOffset mem)
    else if paths.kdma then
      .done (copyBoWithKdma sz dst.handle dstOffset src.handle srcOffset mem)
    else copyThroughHost dst src sz srcOffset dstOffset mem

/-! ### What a copy moves -/

/-- A plain buffer, or a sub-buffer of one. -/
def Flat (bo : BoImpl) : Prop :=
  ∃ handle size, bo = plain handle size
    ∨ ∃ subSize offset, createSub (plain handle size) subSize offset = some bo

/-- The outcome has moved the bytes at `src` of the device to `dst`, if there was no exception. -/
def Moves (src dst sz : BitVec 64) (mem : Memories) : Outcome → Prop
  | .thrown _ => True
  | .undefined => False
  | .done after => after.device = transfer mem.device mem.device src dst sz.toNat

/-- The checks on the way to the handle. -/
def syncs : BoImpl → BitVec 64 → BitVec 64 → Bool
  | plain _ _, _, _ => true
  | sub parent _ own, sz, offset =>
    decide (offset + own + sz ≤ parent.getSize) && parent.syncs sz (offset + own)

/-- The copy in host memory is reached, and its ranges have a byte in common. -/
def HostOverlap (dst src : BoImpl) (sz srcOffset dstOffset : BitVec 64) : Prop :=
  ∃ srcHbuf dstHbuf, src.getHbuf = some srcHbuf ∧ dst.getHbuf = some dstHbuf
    ∧ srcHbuf ≠ 0 ∧ dstHbuf ≠ 0 ∧ src.syncs sz srcOffset = true
    ∧ Overlap (dstHbuf + dstOffset) (srcHbuf + srcOffset) sz

/-- The offset from the start of the handle's buffer, over all parents. -/
def start : BoImpl → BitVec 64
  | plain _ _ => 0
  | sub parent _ offset => parent.start + offset

variable {bo dst src : BoImpl} {sz offset srcOffset dstOffset : BitVec 64} {mem : Memories}

theorem Flat.start_eq (flat : Flat bo) : bo.start = bo.getOffset := by
  obtain ⟨handle, size, rfl | ⟨subSize, offset, created⟩⟩ := flat
  · rfl
  · unfold createSub at created
    split_ifs at created
    cases created
    exact BitVec.zero_add offset

theorem getHbuf_eq (bo : BoImpl) : bo.getHbuf = bo.handle.hbuf.map (· + bo.start) := by
  induction bo with
  | plain h size =>
    have unchanged : (· + (0 : BitVec 64)) = id := funext BitVec.add_zero
    rw [getHbuf, start, unchanged, Option.map_id]
    rfl
  | sub parent size offset ih =>
    rw [getHbuf, ih, handle, start, Option.map_map]
    congr 1
    funext p
    exact BitVec.add_assoc _ _ _

theorem sync_eq (bo : BoImpl) (dir : SyncDirection) (sz offset : BitVec 64) (mem : Memories) :
    bo.sync dir sz offset mem
      = if bo.syncs sz offset then some (bo.handle.sync dir sz.toNat (offset + bo.start) mem)
        else none := by
  induction bo generalizing offset with
  | plain h size =>
    have unchanged : offset + 0 = offset := BitVec.add_zero offset
    rw [sync, syncs, if_pos rfl, start, unchanged]
    rfl
  | sub parent size own ih =>
    rw [sync, syncs, ih, handle, start]
    by_cases inside : offset + own + sz ≤ parent.getSize
    · have order : offset + own + (parent.start) = offset + (parent.start + own) := by
        rw [BitVec.add_assoc, BitVec.add_comm own]
      simp [inside, order]
    · simp [inside]

theorem sync_fromDevice {hbuf : BitVec 64} (found : bo.getHbuf = some hbuf) (n : Nat) :
    bo.handle.sync .fromDevice n (offset + bo.start) mem
      = { mem with
          host := transfer mem.device mem.host (bo.handle.paddr + bo.start + offset)
            (hbuf + offset) n } := by
  rw [getHbuf_eq] at found
  obtain ⟨base, buf, rfl⟩ := Option.map_eq_some_iff.mp found
  simp only [BufferHandle.sync, buf, BitVec.add_assoc, BitVec.add_comm offset]

theorem sync_toDevice {hbuf : BitVec 64} (found : bo.getHbuf = some hbuf) (n : Nat) :
    bo.handle.sync .toDevice n (offset + bo.start) mem
      = { mem with
          device := transfer mem.host mem.device (hbuf + offset)
            (bo.handle.paddr + bo.start + offset) n } := by
  rw [getHbuf_eq] at found
  obtain ⟨base, buf, rfl⟩ := Option.map_eq_some_iff.mp found
  simp only [BufferHandle.sync, buf, BitVec.add_assoc, BitVec.add_comm offset]

theorem copyThroughHost_moves (mem : Memories) (apart : ¬ HostOverlap dst src sz srcOffset dstOffset) :
    Moves (src.handle.paddr + src.start + srcOffset) (dst.handle.paddr + dst.start + dstOffset) sz
      mem (copyThroughHost dst src sz srcOffset dstOffset mem) := by
  unfold copyThroughHost
  split
  next srcHbuf dstHbuf fromSrc fromDst =>
    by_cases srcNull : srcHbuf = 0
    · rw [if_pos srcNull]
      trivial
    by_cases dstNull : dstHbuf = 0
    · rw [if_neg srcNull, if_pos dstNull]
      trivial
    rw [if_neg srcNull, if_neg dstNull, sync_eq]
    by_cases reads : src.syncs sz srcOffset = true
    · have disjoint : ¬ Overlap (dstHbuf + dstOffset) (srcHbuf + srcOffset) sz := fun overlap =>
        apart ⟨srcHbuf, dstHbuf, fromSrc, fromDst, srcNull, dstNull, reads, overlap⟩
      simp only [if_pos reads, if_neg disjoint, sync_eq]
      by_cases writes : dst.syncs sz dstOffset = true
      · -- device to host, inside host memory, host to device
        simp only [if_pos writes, sync_fromDevice fromSrc, sync_toDevice fromDst, Moves,
          transfer_transfer]
      · simp only [if_neg writes]
        trivial
    · simp only [if_neg reads]
      trivial
  next => trivial

theorem copyThroughHost_undefined (overlap : HostOverlap dst src sz srcOffset dstOffset) :
    copyThroughHost dst src sz srcOffset dstOffset mem = .undefined := by
  obtain ⟨srcHbuf, dstHbuf, fromSrc, fromDst, srcNull, dstNull, reads, meet⟩ := overlap
  simp only [copyThroughHost, fromSrc, fromDst, if_neg srcNull, if_neg dstNull, sync_eq,
    if_pos reads, if_pos meet]

end BoImpl

theorem joinWords (offset : BitVec 64) :
    ((offset >>> 32 &&& 0xFFFFFFFF).setWidth 32).setWidth 64 <<< 32
      ||| (offset.setWidth 32).setWidth 64 = offset := by
  have bound := offset.isLt
  -- as numbers, the words are the quotient and the remainder by 2 ^ 32
  have high : (((offset >>> 32 &&& 0xFFFFFFFF).setWidth 32).setWidth 64).toNat
      = offset.toNat / 2 ^ 32 := by
    rw [BitVec.toNat_setWidth, BitVec.toNat_setWidth, BitVec.toNat_and, BitVec.toNat_ushiftRight]
    change (_ &&& 2 ^ 32 - 1) % _ % _ = _
    rw [Nat.and_two_pow_sub_one_eq_mod, Nat.shiftRight_eq_div_pow]
    omega
  have low : ((offset.setWidth 32).setWidth 64).toNat = offset.toNat % 2 ^ 32 := by
    rw [BitVec.toNat_setWidth, BitVec.toNat_setWidth]
    omega
  apply BitVec.eq_of_toNat_eq
  rw [BitVec.toNat_or, BitVec.toNat_shiftLeft, high, low, Nat.shiftLeft_eq,
    Nat.mod_eq_of_lt (by omega), ← Nat.shiftLeft_eq,
    ← Nat.shiftLeft_add_eq_or_of_lt (Nat.mod_lt _ (by decide)), Nat.shiftLeft_eq]
  omega

theorem copyBoWithKdma_eq (sz : BitVec 64) (dst src : BufferHandle)
    (dstOffset srcOffset : BitVec 64) (mem : Memories) :
    copyBoWithKdma sz dst dstOffset src srcOffset mem
      = dst.copy src (sz.toNat % 2 ^ 32) dstOffset srcOffset mem := by
  rw [copyBoWithKdma, CopyboCmd.exec, ertCopyboSrcOffset, ertCopyboDstOffset, ertCopyboSize]
  simp only [ertFillCopyboCmd, joinWords, BitVec.toNat_setWidth]

namespace BoImpl

variable {dst src : BoImpl} {sz srcOffset dstOffset : BitVec 64} {mem : Memories}

theorem copyError_none (accepted : copyError dst src sz srcOffset dstOffset = none) :
    0 < sz.toNat := by
  unfold copyError at accepted
  split_ifs at accepted with zero
  bv_omega

/-- M2M and KDMA, for which `n` bytes are left of the size. -/
theorem handle_copy_iff (dst src : BoImpl) (srcOffset dstOffset : BitVec 64) {n : Nat}
    (positive : 0 < sz.toNat) (le : n ≤ sz.toNat) :
    (∀ mem, Moves (src.getAddress + srcOffset) (dst.getAddress + dstOffset) sz mem
        (.done (dst.handle.copy src.handle n dstOffset srcOffset mem)))
      ↔ src.getAddress + srcOffset = dst.getAddress + dstOffset
          ∧ (src.getOffset = dst.getOffset ∨ n = 0)
        ∨ src.getOffset = 0 ∧ dst.getOffset = 0 ∧ n = sz.toNat := by
  have memories : (∀ mem, Moves (src.getAddress + srcOffset) (dst.getAddress + dstOffset) sz mem
        (.done (dst.handle.copy src.handle n dstOffset srcOffset mem)))
      ↔ ∀ device : ByteMem, transfer device device (src.handle.paddr + srcOffset)
          (dst.handle.paddr + dstOffset) n
        = transfer device device (src.getAddress + srcOffset) (dst.getAddress + dstOffset)
          sz.toNat :=
    ⟨fun moves device => moves ⟨device, device⟩, fun same mem => same mem.device⟩
  -- two copies that agree on every memory have the same ranges, or change nothing
  rw [memories, transfer_eq_iff positive sz.isLt le]
  have fromStart : src.handle.paddr + srcOffset = src.getAddress + srcOffset
      ↔ src.getOffset = 0 := by
    rw [getAddress]
    constructor <;> intro equal <;> bv_omega
  have toStart : dst.handle.paddr + dstOffset = dst.getAddress + dstOffset
      ↔ dst.getOffset = 0 := by
    rw [getAddress]
    constructor <;> intro equal <;> bv_omega
  -- a range that is copied onto itself needs only equal offsets
  have still : src.getAddress + srcOffset = dst.getAddress + dstOffset →
      (src.handle.paddr + srcOffset = dst.handle.paddr + dstOffset
        ↔ src.getOffset = dst.getOffset) := by
    intro same
    rw [getAddress, getAddress] at same
    constructor <;> intro equal <;> bv_omega
  rw [fromStart, toStart]
  exact or_congr_left (and_congr_right fun same => or_congr_left (still same))

/-- All paths move the bytes between the addresses of the objects if neither is a sub-buffer at an
offset and the size has 32 bits. The ranges in host memory must not meet. A range that is copied
onto itself stays as it is if both objects have one offset. -/
theorem copy_moves_iff (flatDst : Flat dst) (flatSrc : Flat src)
    (accepted : copyError dst src sz srcOffset dstOffset = none) :
    (∀ paths mem, Moves (src.getAddress + srcOffset) (dst.getAddress + dstOffset) sz mem
        (copy paths dst src sz srcOffset dstOffset mem))
      ↔ ¬ HostOverlap dst src sz srcOffset dstOffset
        ∧ (src.getOffset = 0 ∧ dst.getOffset = 0 ∧ sz.toNat < 2 ^ 32
          ∨ src.getAddress + srcOffset = dst.getAddress + dstOffset
            ∧ src.getOffset = dst.getOffset) := by
  have positive := copyError_none accepted
  have m2m := handle_copy_iff dst src srcOffset dstOffset positive le_rfl
  have kdma := handle_copy_iff dst src srcOffset dstOffset positive (Nat.mod_le sz.toNat (2 ^ 32))
  constructor
  · -- each choice of paths is one of the three copies
    intro all
    have first := m2m.mp fun mem => by
      simpa only [copy, accepted, if_true] using all ⟨true, false⟩ mem
    have second := kdma.mp fun mem => by
      simpa [copy, accepted, copyBoWithKdma_eq] using all ⟨false, true⟩ mem
    constructor
    · intro overlap
      have third := all ⟨false, false⟩ ⟨fun _ => 0, fun _ => 0⟩
      simp [copy, accepted, copyThroughHost_undefined overlap, Moves] at third
    · rcases first with ⟨same, equal | none⟩ | ⟨fromStart, toStart, -⟩
      · exact .inr ⟨same, equal⟩
      · omega
      · rcases second with ⟨same, -⟩ | ⟨-, -, whole⟩
        · exact .inr ⟨same, fromStart.trans toStart.symm⟩
        · exact .inl ⟨fromStart, toStart, whole ▸ Nat.mod_lt _ (by decide)⟩
  · rintro ⟨apart, moved⟩ paths mem
    simp only [copy, accepted]
    split
    · refine m2m.mpr ?_ mem
      rcases moved with ⟨fromStart, toStart, -⟩ | ⟨same, equal⟩
      · exact .inr ⟨fromStart, toStart, rfl⟩
      · exact .inl ⟨same, .inl equal⟩
    · split
      · rw [copyBoWithKdma_eq]
        refine kdma.mpr ?_ mem
        rcases moved with ⟨fromStart, toStart, small⟩ | ⟨same, equal⟩
        · exact .inr ⟨fromStart, toStart, Nat.mod_eq_of_lt small⟩
        · exact .inl ⟨same, .inl equal⟩
      · have moves := copyThroughHost_moves mem apart
        rwa [flatSrc.start_eq, flatDst.start_eq] at moves

/-- Two plain buffers of 16 bytes. -/
theorem plain_copy_moves :
    copyError (plain ⟨0x2000, some 0x80⟩ 16) (plain ⟨0x1000, some 0x40⟩ 16) 8 8 0 = none
      ∧ ∀ paths mem, Moves 0x1008 0x2000 8 mem
        (copy paths (plain ⟨0x2000, some 0x80⟩ 16) (plain ⟨0x1000, some 0x40⟩ 16) 8 8 0 mem) :=
  ⟨by decide, (@copy_moves_iff (plain ⟨0x2000, some 0x80⟩ 16) (plain ⟨0x1000, some 0x40⟩ 16) 8 8 0
    ⟨_, _, .inl rfl⟩ ⟨_, _, .inl rfl⟩ (by decide)).mpr ⟨by
      rintro ⟨_, _, ⟨⟩, ⟨⟩, -, -, -, overlap⟩
      revert overlap
      decide, .inl (by decide)⟩⟩

/-- The source is the second half of a buffer: M2M and KDMA copy the first half. -/
theorem sub_copy_misses :
    let parent : BoImpl := plain ⟨0x1000, some 0x40⟩ 16
    let src : BoImpl := sub parent 8 8
    let dst : BoImpl := plain ⟨0x2000, some 0x80⟩ 16
    let mem : Memories := ⟨fun a => a.setWidth 8, fun _ => 0⟩
    createSub parent 8 8 = some src
      ∧ copyError dst src 8 0 0 = none
      ∧ src.getAddress = 0x1008
      ∧ mem.device 0x1008 = 0x08
      ∧ (∃ after, copy ⟨true, false⟩ dst src 8 0 0 mem = .done after ∧ after.device 0x2000 = 0x00)
      ∧ (∃ after, copy ⟨false, true⟩ dst src 8 0 0 mem = .done after ∧ after.device 0x2000 = 0x00)
      ∧ ∃ after, copy ⟨false, false⟩ dst src 8 0 0 mem = .done after
        ∧ after.device 0x2000 = 0x08 :=
  ⟨rfl, by decide, by decide, by decide, ⟨_, rfl, by decide⟩, ⟨_, rfl, by decide⟩, _, rfl,
    by decide⟩

end BoImpl

end Xrt.Bo
