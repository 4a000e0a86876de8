import Xrt.Bo.SubBuffer

/-!
# The bytes that calls of a buffer object touch

`read`, `write`, `copy` and the constructor of a sub-buffer compare the sum of a size and an offset
with the size of the buffer. The sum has 64 bits, and one that wraps passes the check. A copy by M2M
or KDMA takes the offset from the start of the handle's buffer, also for a sub-buffer.
-/
namespace Xrt.Bo

open Lib

inductive Side
  | host
  | device
deriving DecidableEq, Repr

/-- Bytes in a row. -/
structure Access where
  side : Side
  first : BitVec 64
  length : Nat
deriving DecidableEq, Repr

/-- Where a side of a buffer begins. -/
def BoImpl.base (bo : BoImpl) : Side → Option (BitVec 64)
  | .host => bo.getHbuf
  | .device => some (bo.handle.paddr + bo.start)

/-- Every byte is one of the buffer. -/
def Access.Inside (access : Access) (bo : BoImpl) : Prop :=
  ∃ base, bo.base access.side = some base ∧ ∀ i < access.length,
    (access.first + BitVec.ofNat 64 i - base).toNat < bo.getSize.toNat

namespace BoImpl

/-- `read` and `write`, with the name of the operation in the message. -/
def readWrite (verb : Text) (bo : BoImpl) (sz off : BitVec 64) : Except Text (List Access) :=
  if sz + off > bo.getSize then
    .error (ascii "attempting to " ++ verb ++ ascii " past buffer size")
  else
    match bo with
    -- `buffer_dbuf` accesses the device
    | plain ⟨paddr, none⟩ _ => .ok [⟨.device, paddr + off, sz.toNat⟩]
    | bo =>
      match bo.getHbuf with
      | none => .error (ascii "device only buffer has no host buffer")
      | some hbuf => .ok [⟨.host, hbuf + off, sz.toNat⟩]

/-- Both sides of a range of a buffer. -/
def sides (bo : BoImpl) (hbuf off : BitVec 64) (length : Nat) : List Access :=
  [⟨.host, hbuf + off, length⟩, ⟨.device, bo.handle.paddr + bo.start + off, length⟩]

/-- The accesses to the source and to the destination. -/
def hostCopy (kind : RootKind) (dst src : BoImpl) (sz srcOffset dstOffset : BitVec 64) :
    Except Text (List Access × List Access) :=
  match src.getHbuf, dst.getHbuf with
  | some srcHbuf, some dstHbuf =>
    if srcHbuf = 0 then .error (ascii "No host side buffer in source buffer")
    else if dstHbuf = 0 then .error (ascii "No host side buffer in destination buffer")
    else if src.syncs sz srcOffset && dst.syncs sz dstOffset then
      -- the range in host memory is written, and the destination synced
      .ok (src.sides srcHbuf srcOffset sz.toNat,
        ⟨.host, dstHbuf + dstOffset, sz.toNat⟩
          :: dst.sides dstHbuf dstOffset (kind.moved dst.rootSize .toDevice sz).toNat)
    else .error (ascii "Invalid offset and size when syncing sub buffer")
  | _, _ => .error (ascii "device only buffer has no host buffer")

def handleCopy (dst src : BoImpl) (n : Nat) (srcOffset dstOffset : BitVec 64) :
    List Access × List Access :=
  ([⟨.device, src.handle.paddr + srcOffset, n⟩], [⟨.device, dst.handle.paddr + dstOffset, n⟩])

/-- `bo_impl::copy`. -/
def baseCopy (kind : RootKind) (paths : Paths) (dst src : BoImpl)
    (sz srcOffset dstOffset : BitVec 64) : Except Text (List Access × List Access) :=
  match copyError dst src sz srcOffset dstOffset with
  | some message => .error message
  | none =>
    if paths.m2m then .ok (handleCopy dst src sz.toNat srcOffset dstOffset)
    else if paths.kdma then .ok (handleCopy dst src (sz.toNat % 2 ^ 32) srcOffset dstOffset)
    else hostCopy kind dst src sz srcOffset dstOffset

/-- `copy` of a destination with a root of some kind. A no-DMA buffer copies the range to its host
side as well. -/
def copyAccesses (kind : RootKind) (paths : Paths) (dst src : BoImpl)
    (sz srcOffset dstOffset : BitVec 64) : Except Text (List Access × List Access) := do
  let (fromSrc, toDst) ← baseCopy kind paths dst src sz srcOffset dstOffset
  if kind = .nodma ∧ dst.isSub = false then
    match dst.getHbuf with
    | none => .error (ascii "device only buffer has no host buffer")
    | some hbuf => pure (fromSrc, toDst ++ dst.sides hbuf dstOffset sz.toNat)
  else pure (fromSrc, toDst)

end BoImpl

inductive Call
  | read (bo : BoImpl) (sz skip : BitVec 64)
  | write (bo : BoImpl) (sz seek : BitVec 64)
  | copy (kind : RootKind) (paths : BoImpl.Paths) (dst src : BoImpl)
      (sz srcOffset dstOffset : BitVec 64)
  | createSub (parent : BoImpl) (size offset : BitVec 64)

namespace Call

/-- The accesses, each with the buffer concerned. A new sub-buffer has those of its range. -/
def accesses : Call → Except Text (List (BoImpl × Access))
  | read bo sz skip => (bo.readWrite (ascii "read") sz skip).map (·.map (bo, ·))
  | write bo sz seek => (bo.readWrite (ascii "write") sz seek).map (·.map (bo, ·))
  | copy kind paths dst src sz srcOffset dstOffset =>
    (BoImpl.copyAccesses kind paths dst src sz srcOffset dstOffset).map fun both =>
      both.1.map (src, ·) ++ both.2.map (dst, ·)
  | createSub parent size offset =>
    match parent.getHbuf with
    | none => .error (ascii "device only buffer has no host buffer")
    | some hbuf =>
      if size + offset > parent.getSize then .error (ascii "sub buffer size and offset")
      else .ok ((parent.sides hbuf offset size.toNat).map (parent, ·))

/-- The call throws or touches only bytes inside of the buffers. -/
def Right (call : Call) : Prop :=
  ∀ touched, call.accesses = .ok touched → ∀ t ∈ touched, t.2.Inside t.1

end Call

/-- The bytes from an offset on are those of the buffer. -/
def Fits (bo : BoImpl) (off : BitVec 64) (n : Nat) : Prop := n = 0 ∨ off.toNat + n ≤ bo.getSize.toNat

/-- A sum that passes the check has not wrapped. -/
def Unwrapped (bo : BoImpl) (sz off : BitVec 64) : Prop :=
  sz + off ≤ bo.getSize → sz.toNat + off.toNat < 2 ^ 64

/-- There is a host pointer, and it is not null. -/
def BoImpl.Mapped (bo : BoImpl) : Prop := ∃ hbuf, bo.getHbuf = some hbuf ∧ hbuf ≠ 0

/-- The bytes that M2M moves, and KDMA, whose command has 32 bits for the size. -/
def BoImpl.Paths.moved (paths : BoImpl.Paths) (sz : BitVec 64) : Nat :=
  if paths.m2m then sz.toNat else sz.toNat % 2 ^ 32

/-- The condition on a copy that passes the checks. By M2M or KDMA the range, as it lies from the start of
the handle's buffer, is inside of both buffers. Through host memory no sum wraps, and all of a no-DMA
root fits behind the offset. -/
def CopyWithin (kind : RootKind) (paths : BoImpl.Paths) (dst src : BoImpl)
    (sz srcOffset dstOffset : BitVec 64) : Prop :=
  if paths.m2m ∨ paths.kdma then
    (Fits src (srcOffset - src.start) (paths.moved sz) ∧ Fits dst (dstOffset - dst.start) (paths.moved sz))
      ∧ (kind = .nodma ∧ dst.isSub = false → sz.toNat + dstOffset.toNat < 2 ^ 64)
  else src.Mapped → dst.Mapped → src.syncs sz srcOffset → dst.syncs sz dstOffset →
    sz.toNat + srcOffset.toNat < 2 ^ 64 ∧ sz.toNat + dstOffset.toNat < 2 ^ 64
      ∧ (kind = .nodma → Fits dst dstOffset dst.rootSize.toNat)

/-- The condition on the calls that do not throw for lack of a host buffer. -/
def Call.Within : Call → Prop
  | read bo sz off | write bo sz off => bo.isSub = false ∨ bo.getHbuf ≠ none → Unwrapped bo sz off
  | createSub parent sz off => parent.getHbuf ≠ none → Unwrapped parent sz off
  | copy kind paths dst src sz srcOffset dstOffset =>
    sz ≠ 0 → sz + dstOffset ≤ dst.getSize → sz + srcOffset ≤ src.getSize →
      (kind = .nodma ∧ dst.isSub = false → dst.getHbuf ≠ none) →
      CopyWithin kind paths dst src sz srcOffset dstOffset

variable {bo dst src : BoImpl} {sz off hbuf srcOffset dstOffset : BitVec 64} {n : Nat}
  {kind : RootKind} {paths : BoImpl.Paths}

/-! ### Ranges inside of a buffer -/

theorem inside_iff {side : Side} {base first : BitVec 64} (begins : bo.base side = some base)
    (small : n ≤ 2 ^ 64) :
    (⟨side, first, n⟩ : Access).Inside bo ↔ Fits bo (first - base) n := by
  have at' (i : Nat) : (first + BitVec.ofNat 64 i - base).toNat
      = ((first - base).toNat + i) % 2 ^ 64 := by bv_omega
  have size := bo.getSize.isLt
  have offset := (first - base).isLt
  unfold Fits
  constructor
  · rintro ⟨base', begins', inside⟩
    cases begins.symm.trans begins'
    simp only [at'] at inside
    have start := inside 0
    have behind := inside (bo.getSize.toNat - (first - base).toNat)
    omega
  · intro fits
    refine ⟨base, begins, fun i (less : i < n) => ?_⟩
    rw [at']
    omega

theorem at_offset_iff {side : Side} {base : BitVec 64} (begins : bo.base side = some base)
    (small : n ≤ 2 ^ 64) : (⟨side, base + off, n⟩ : Access).Inside bo ↔ Fits bo off n := by
  rw [inside_iff begins small, BitVec.add_comm, BitVec.add_sub_cancel]

theorem fits_iff (passed : sz + off ≤ bo.getSize) :
    Fits bo off sz.toNat ↔ sz.toNat + off.toNat < 2 ^ 64 := by
  unfold Fits
  bv_omega

theorem sides_iff (found : bo.base .host = some hbuf) (small : n ≤ 2 ^ 64) :
    (∀ access ∈ bo.sides hbuf off n, access.Inside bo) ↔ Fits bo off n := by
  rw [BoImpl.sides, List.forall_mem_cons, List.forall_mem_singleton, at_offset_iff found small,
    at_offset_iff rfl small, and_self]

theorem readWrite_right_iff (verb : Text) :
    (∀ touched, bo.readWrite verb sz off = .ok touched → ∀ access ∈ touched, access.Inside bo)
      ↔ (bo.isSub = false ∨ bo.getHbuf ≠ none → Unwrapped bo sz off) := by
  have small := Nat.le_of_lt sz.isLt
  by_cases passed : sz + off ≤ bo.getSize
  case neg => simp [BoImpl.readWrite, Unwrapped, passed, BitVec.not_le.mp passed]
  rw [Unwrapped, ← fits_iff passed]
  have checked : ¬ sz + off > bo.getSize := BitVec.not_lt.mpr passed
  have host {hbuf : BitVec 64} (found : bo.getHbuf = some hbuf) :
      (⟨.host, hbuf + off, sz.toNat⟩ : Access).Inside bo ↔ _ := at_offset_iff found small
  match bo with
  | .plain ⟨paddr, none⟩ size =>
    have begins : (BoImpl.plain ⟨paddr, none⟩ size).base .device = some paddr :=
      congrArg some (BitVec.add_zero paddr)
    simp [BoImpl.readWrite, checked, at_offset_iff begins small, BoImpl.isSub, passed]
  | .plain ⟨paddr, some hbuf⟩ size =>
    have found : (BoImpl.plain ⟨paddr, some hbuf⟩ size).getHbuf = some hbuf := rfl
    simp [BoImpl.readWrite, checked, found, host found, passed]
  | .sub parent size own =>
    cases found : (BoImpl.sub parent size own).getHbuf with
    | none => simp [BoImpl.readWrite, checked, found, BoImpl.isSub]
    | some hbuf => simp [BoImpl.readWrite, checked, found, host found, passed]

/-! ### Copies -/

def BothInside (dst src : BoImpl) (touched : List Access × List Access) : Prop :=
  (∀ access ∈ touched.1, access.Inside src) ∧ ∀ access ∈ touched.2, access.Inside dst

theorem handleCopy_iff (dst src : BoImpl) (srcOffset dstOffset : BitVec 64) (small : n ≤ 2 ^ 64) :
    BothInside dst src (BoImpl.handleCopy dst src n srcOffset dstOffset)
      ↔ Fits src (srcOffset - src.start) n ∧ Fits dst (dstOffset - dst.start) n := by
  have side (bo : BoImpl) (off : BitVec 64) :
      (⟨.device, bo.handle.paddr + off, n⟩ : Access).Inside bo ↔ Fits bo (off - bo.start) n := by
    have cancel : bo.handle.paddr + off - (bo.handle.paddr + bo.start) = off - bo.start := by bv_omega
    rw [inside_iff rfl small, cancel]
  rw [BothInside, BoImpl.handleCopy, List.forall_mem_singleton, List.forall_mem_singleton, side, side]

/-- What holds of every range that fits the destination comes with the accesses. -/
theorem hostCopy_right_iff (fromSrc : sz + srcOffset ≤ src.getSize) (toDst : sz + dstOffset ≤ dst.getSize)
    {extra : Prop} (implied : Fits dst dstOffset sz.toNat → extra) :
    (∀ touched, BoImpl.hostCopy kind dst src sz srcOffset dstOffset = .ok touched →
        BothInside dst src touched ∧ extra)
      ↔ (src.Mapped → dst.Mapped → src.syncs sz srcOffset → dst.syncs sz dstOffset →
        sz.toNat + srcOffset.toNat < 2 ^ 64 ∧ sz.toNat + dstOffset.toNat < 2 ^ 64
          ∧ (kind = .nodma → Fits dst dstOffset dst.rootSize.toNat)) := by
  have small := Nat.le_of_lt sz.isLt
  rw [← fits_iff fromSrc, ← fits_iff toDst]
  unfold BoImpl.hostCopy BoImpl.Mapped
  cases srcFound : src.getHbuf with
  | none => simp
  | some srcHbuf =>
    cases dstFound : dst.getHbuf with
    | none => simp
    | some dstHbuf =>
      simp only [Option.some.injEq, exists_eq_left']
      by_cases srcNull : srcHbuf = 0
      · simp only [srcNull, if_true, reduceCtorEq, false_imp_iff, implies_true, ne_eq, not_true]
      by_cases dstNull : dstHbuf = 0
      · simp only [srcNull, dstNull, if_true, if_false, reduceCtorEq, false_imp_iff, implies_true, ne_eq,
          not_true]
      by_cases synced : src.syncs sz srcOffset && dst.syncs sz dstOffset
      · have moved : (kind.moved dst.rootSize .toDevice sz).toNat ≤ 2 ^ 64 := Nat.le_of_lt (BitVec.isLt _)
        simp only [srcNull, dstNull, synced, if_true, if_false, Except.ok.injEq, forall_eq', BothInside,
          List.forall_mem_cons, sides_iff srcFound small, sides_iff dstFound moved,
          at_offset_iff (show dst.base .host = some dstHbuf from dstFound) small]
        cases kind <;> simp_all [RootKind.moved]
      · simp only [srcNull, dstNull, synced, if_false, reduceCtorEq, false_imp_iff, implies_true,
          Bool.false_eq_true, true_iff]
        exact fun _ _ srcSyncs dstSyncs => absurd (Bool.and_eq_true_iff.mpr ⟨srcSyncs, dstSyncs⟩) synced

theorem copyError_none_iff : BoImpl.copyError dst src sz srcOffset dstOffset = none
    ↔ sz ≠ 0 ∧ sz + dstOffset ≤ dst.getSize ∧ sz + srcOffset ≤ src.getSize := by
  unfold BoImpl.copyError
  split_ifs with zero past past' <;> simp_all

theorem baseCopy_right_iff (accepted : BoImpl.copyError dst src sz srcOffset dstOffset = none) :
    (∀ touched, BoImpl.baseCopy kind paths dst src sz srcOffset dstOffset = .ok touched →
        BothInside dst src touched ∧ (kind = .nodma ∧ dst.isSub = false → Fits dst dstOffset sz.toNat))
      ↔ CopyWithin kind paths dst src sz srcOffset dstOffset := by
  have small := Nat.le_of_lt sz.isLt
  obtain ⟨-, toDst, fromSrc⟩ := copyError_none_iff.mp accepted
  have handle (moved : paths.moved sz ≤ 2 ^ 64) :=
    handleCopy_iff dst src srcOffset dstOffset moved
  rw [BoImpl.baseCopy, accepted, CopyWithin, ← fits_iff toDst]
  dsimp only
  by_cases m2m : paths.m2m
  · have moved : paths.moved sz = sz.toNat := if_pos m2m
    rw [moved] at handle ⊢
    simp only [m2m, true_or, if_true, Except.ok.injEq, forall_eq', handle small]
  · have moved : paths.moved sz = sz.toNat % 2 ^ 32 := if_neg m2m
    rw [moved] at handle ⊢
    by_cases kdma : paths.kdma
    · simp only [m2m, kdma, or_true, if_true, Bool.false_eq_true, if_false, Except.ok.injEq, forall_eq',
        handle (by omega)]
    · simp only [m2m, kdma, or_self, Bool.false_eq_true, if_false]
      rw [fits_iff toDst]
      exact hostCopy_right_iff fromSrc toDst fun fits _ => (fits_iff toDst).mp fits

theorem copy_right_iff : (∀ touched,
      BoImpl.copyAccesses kind paths dst src sz srcOffset dstOffset = .ok touched →
        BothInside dst src touched)
      ↔ (Call.copy kind paths dst src sz srcOffset dstOffset).Within := by
  have small := Nat.le_of_lt sz.isLt
  cases accepted : BoImpl.copyError dst src sz srcOffset dstOffset with
  | some message =>
    refine iff_of_true (fun touched done => ?_) fun positive toDst fromSrc _ => ?_
    · rw [BoImpl.copyAccesses, BoImpl.baseCopy, accepted] at done
      cases done
    · cases accepted.symm.trans (copyError_none_iff.mpr ⟨positive, toDst, fromSrc⟩)
  | none =>
    obtain ⟨positive, toDst, fromSrc⟩ := copyError_none_iff.mp accepted
    simp only [Call.Within, positive, toDst, fromSrc, ne_eq, not_false_eq_true, forall_const,
      ← baseCopy_right_iff accepted, BoImpl.copyAccesses]
    generalize BoImpl.baseCopy kind paths dst src sz srcOffset dstOffset = base
    cases base with
    | error message => simp [bind, Except.bind]
    | ok both =>
      obtain ⟨fromSrc, toDst⟩ := both
      by_cases nodma : kind = .nodma ∧ dst.isSub = false
      · cases found : dst.getHbuf with
        | none => simp [nodma, bind, Except.bind]
        | some hbuf =>
          have both : BothInside dst src (fromSrc, toDst ++ dst.sides hbuf dstOffset sz.toNat)
              ↔ BothInside dst src (fromSrc, toDst) ∧ Fits dst dstOffset sz.toNat := by
            rw [BothInside, BothInside, List.forall_mem_append, sides_iff found small, and_assoc]
          simp [nodma, bind, Except.bind, pure, Except.pure, both]
      · simp [nodma, bind, Except.bind, pure, Except.pure]

/-! ### All calls -/

end Xrt.Bo
