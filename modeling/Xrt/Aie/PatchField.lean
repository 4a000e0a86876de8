import Xrt.Aie.PatchEffect
import Xrt.Lib.Counter

/-!
# The address in a descriptor

The address of a buffer descriptor lies in pieces in several words. A patch adds to it and writes it
back, and should leave every other bit alone. The patches for 48 bits read 44 of them.
-/
namespace Xrt.Aie

open Lib

/-- The functions that patch an address. -/
inductive AddressPatch
  | patch57
  | patch57Aie4
  | patchCtrl48
  | patchShim48
deriving DecidableEq, Repr

/-- The low bits of a word that hold a part of the address, and the place of this part in it. -/
structure Piece where
  index : Nat
  bits : Nat
  shift : Nat
deriving DecidableEq, Repr

def ones (bits : Nat) : BitVec 32 := BitVec.ofNat 32 (2 ^ bits - 1)

/-- The number that the pieces make up. -/
def pieced (m : ByteMem) (ptr : BitVec 64) : List Piece → Nat
  | [] => 0
  | ⟨index, bits, shift⟩ :: rest =>
    (word m ptr index).toNat % 2 ^ bits * 2 ^ shift + pieced m ptr rest

namespace AddressPatch

def apply : AddressPatch → ByteMem → BitVec 64 → BitVec 64 → ByteMem
  | .patch57 => Aie.patch57
  | .patch57Aie4 => Aie.patch57Aie4
  | .patchCtrl48 => Aie.patchCtrl48
  | .patchShim48 => Aie.patchShim48

def width : AddressPatch → Nat
  | .patch57 | .patch57Aie4 => 57
  | .patchCtrl48 | .patchShim48 => 48

def pieces : AddressPatch → List Piece
  | .patch57 => [⟨1, 32, 0⟩, ⟨2, 16, 32⟩, ⟨8, 9, 48⟩]
  | .patch57Aie4 => [⟨1, 32, 0⟩, ⟨0, 25, 32⟩]
  | .patchCtrl48 => [⟨2, 32, 0⟩, ⟨3, 16, 32⟩]
  | .patchShim48 => [⟨1, 32, 0⟩, ⟨2, 16, 32⟩]

def offset : AddressPatch → Nat
  | .patch57 => 0
  | _ => ddrAieAddrOffset.toNat

variable (kind : AddressPatch)

/-- The address as it is to be stored; 48 bits are the address of a 32-bit word. -/
def stored (address : Nat) : Nat :=
  if kind.width = 48 then address / 4 * 4 else address

def address (m : ByteMem) (ptr : BitVec 64) : Nat :=
  pieced m ptr kind.pieces

def field (ptr : BitVec 64) : Set Bit :=
  {b | ∃ piece ∈ kind.pieces, b ∈ masked (wordAt ptr piece.index) (ones piece.bits)}

/-- The sum that the descriptor is to hold. -/
def sum (m : ByteMem) (ptr patch : BitVec 64) : Nat :=
  kind.address m ptr + patch.toNat + kind.offset

/-- The patch stores the sum, and changes no bit outside of the address. -/
def Right (m : ByteMem) (ptr patch : BitVec 64) : Prop :=
  kind.address (kind.apply m ptr patch) ptr = kind.stored (kind.sum m ptr patch)
    ∧ ∀ b ∉ kind.field ptr, bitAt (kind.apply m ptr patch) b = bitAt m b

end AddressPatch

/-! ### Storing pieces -/

variable {m : ByteMem} {ptr a : BitVec 64} {i k : Nat} {pieces : List Piece}

theorem toNat_low (w : BitVec 32) (small : k ≤ 32) : (w &&& ones k).toNat = w.toNat % 2 ^ k := by
  have le : 2 ^ k ≤ 2 ^ 32 := Nat.pow_le_pow_right (by decide) small
  have pos := Nat.two_pow_pos k
  have same : (ones k).toNat = 2 ^ k - 1 := by
    rw [ones, BitVec.toNat_ofNat]
    exact Nat.mod_eq_of_lt (by omega)
  exact toNat_and_ones w same

/-- What every patch does with the address it has computed. -/
def storePieces (a ptr : BitVec 64) : List Piece → ByteMem → ByteMem
  | [], m => m
  | ⟨index, bits, shift⟩ :: rest, m =>
    storePieces a ptr rest
      (merge m (wordAt ptr index) (~~~ ones bits) ((a >>> shift).setWidth 32 &&& ones bits))

theorem bitAt_storePieces {b : Bit}
    (outside : ∀ piece ∈ pieces, b ∉ masked (wordAt ptr piece.index) (ones piece.bits)) :
    bitAt (storePieces a ptr pieces m) b = bitAt m b := by
  induction pieces generalizing m with
  | nil => rfl
  | cons piece rest ih =>
    rw [List.forall_mem_cons] at outside
    rw [storePieces, ih outside.2]
    exact (acts_replace _ _ _).frame m b outside.1

theorem word_storePieces (small : i < 2 ^ 32)
    (others : ∀ piece ∈ pieces, piece.index < 2 ^ 32 ∧ piece.index ≠ i) :
    word (storePieces a ptr pieces m) ptr i = word m ptr i := by
  induction pieces generalizing m with
  | nil => rfl
  | cons piece rest ih =>
    rw [List.forall_mem_cons] at others
    rw [storePieces, ih others.2]
    exact read32_write32_apart _ _ (wordAt_apart ptr others.1.1 small others.1.2)

theorem word_merge_and (m : ByteMem) (ptr : BitVec 64) (i : Nat) (mask v : BitVec 32) :
    word (merge m (wordAt ptr i) (~~~ mask) (v &&& mask)) ptr i &&& mask = v &&& mask := by
  rw [word, merge, read32_write32_self]
  apply BitVec.eq_of_getLsbD_eq
  intro k small
  simp only [BitVec.getLsbD_and, BitVec.getLsbD_or, BitVec.getLsbD_not, small]
  cases mask.getLsbD k <;> simp

/-- The pieces of an address, put together again. -/
def rejoined (a : Nat) : List Piece → Nat
  | [] => 0
  | ⟨_, bits, shift⟩ :: rest => a / 2 ^ shift % 2 ^ bits * 2 ^ shift + rejoined a rest

/-- The pieces are in different words. -/
def Separate (pieces : List Piece) : Prop :=
  pieces.Pairwise (fun piece other => other.index ≠ piece.index)
    ∧ ∀ piece ∈ pieces, piece.index < 2 ^ 32 ∧ piece.bits ≤ 32

instance (pieces : List Piece) : Decidable (Separate pieces) := inferInstanceAs (Decidable (_ ∧ _))

theorem pieced_storePieces (separate : Separate pieces) :
    pieced (storePieces a ptr pieces m) ptr pieces = rejoined a.toNat pieces := by
  induction pieces generalizing m with
  | nil => rfl
  | cons piece rest ih =>
    obtain ⟨apart, small⟩ := separate
    rw [List.pairwise_cons] at apart
    rw [List.forall_mem_cons] at small
    have others : ∀ other ∈ rest, other.index < 2 ^ 32 ∧ other.index ≠ piece.index :=
      fun other member => ⟨(small.2 other member).1, apart.1 other member⟩
    rw [storePieces, pieced, rejoined, ih ⟨apart.2, small.2⟩, word_storePieces small.1.1 others,
      ← toNat_low _ small.1.2, word_merge_and, toNat_low _ small.1.2,
      BitVec.toNat_setWidth, BitVec.toNat_ushiftRight, Nat.shiftRight_eq_div_pow,
      Nat.mod_mod_of_dvd _ (Nat.pow_dvd_pow 2 small.1.2)]

variable {patch : BitVec 64} {low n : Nat}

theorem AddressPatch.right_iff_rejoined {kind : AddressPatch}
    (stores : kind.apply m ptr patch = storePieces a ptr kind.pieces m) :
    kind.Right m ptr patch
      ↔ rejoined a.toNat kind.pieces = kind.stored (kind.sum m ptr patch) := by
  have separate : Separate kind.pieces := by cases kind <;> decide
  rw [Right, address, stores, pieced_storePieces separate]
  refine and_iff_left fun b outside => ?_
  exact bitAt_storePieces fun piece member inside => outside ⟨piece, member, inside⟩

/-! ### The address that a patch computes -/

theorem toNat_word (w : BitVec 32) : (w.setWidth 64).toNat = w.toNat := by
  rw [BitVec.toNat_setWidth]
  exact Nat.mod_eq_of_lt (w.isLt.trans (by decide))

theorem toNat_or_of_lt {x y : BitVec 64} (whole : 2 ^ k ∣ x.toNat) (small : y.toNat < 2 ^ k) :
    (x ||| y).toNat = x.toNat + y.toNat := by
  obtain ⟨q, split⟩ := whole
  rw [BitVec.toNat_or, split, Nat.two_pow_add_eq_or_of_lt small]

theorem toNat_piece (w : BitVec 32) (k shift : Nat) (fits : k + shift ≤ 64) (small : k ≤ 32) :
    ((w.setWidth 64 &&& (ones k).setWidth 64) <<< shift).toNat = w.toNat % 2 ^ k * 2 ^ shift := by
  have less : w.toNat % 2 ^ k * 2 ^ shift < 2 ^ 64 := by
    have pos := Nat.two_pow_pos shift
    calc w.toNat % 2 ^ k * 2 ^ shift
        < 2 ^ k * 2 ^ shift := Nat.mul_lt_mul_of_pos_right (Nat.mod_lt _ (Nat.two_pow_pos k)) pos
      _ = 2 ^ (k + shift) := (Nat.pow_add ..).symm
      _ ≤ 2 ^ 64 := Nat.pow_le_pow_right (by decide) fits
  rw [← BitVec.setWidth_and, BitVec.toNat_shiftLeft, toNat_word, toNat_low w small,
    Nat.shiftLeft_eq, Nat.mod_eq_of_lt less]

/-- A piece above a whole low word. -/
theorem toNat_held (high low : BitVec 32) (mask : BitVec 64) (k : Nat) (small : k ≤ 32)
    (same : (ones k).setWidth 64 = mask) :
    ((high.setWidth 64 &&& mask) <<< 32 ||| low.setWidth 64).toNat
      = low.toNat + high.toNat % 2 ^ k * 2 ^ 32 := by
  have piece := toNat_piece high k 32 (by omega) small
  rw [same] at piece
  rw [toNat_or_of_lt (k := 32), piece, toNat_word, Nat.add_comm]
  · rw [piece]
    exact Nat.dvd_mul_left ..
  · rw [toNat_word]
    exact low.isLt

theorem toNat_held57 (m : ByteMem) (ptr : BitVec 64) :
    (((word m ptr 8).setWidth 64 &&& 0x1FF) <<< 48 ||| ((word m ptr 2).setWidth 64 &&& 0xFFFF) <<< 32
      ||| (word m ptr 1).setWidth 64).toNat = AddressPatch.patch57.address m ptr := by
  have mask : (ones 9).setWidth 64 = 0x1FF := by decide
  have middle := toNat_held (word m ptr 2) (word m ptr 1) 0xFFFF 16 (by decide) (by decide)
  have high := toNat_piece (word m ptr 8) 9 48 (by decide) (by decide)
  have less := (word m ptr 1).isLt
  rw [mask] at high
  rw [BitVec.or_assoc, toNat_or_of_lt (k := 48), middle, high]
  · simp only [AddressPatch.address, AddressPatch.pieces, pieced]
    omega
  · rw [high]
    exact Nat.dvd_mul_left ..
  · omega

/-! ### The patches store pieces -/

theorem ones_word : ones 32 = BitVec.allOnes 32 := by decide

theorem setWord_eq_merge (m : ByteMem) (ptr : BitVec 64) (i : Nat) (a : BitVec 64) :
    setWord m ptr i (a.setWidth 32)
      = merge m (wordAt ptr i) (~~~ ones 32) ((a >>> 0).setWidth 32 &&& ones 32) := by
  rw [ones_word, BitVec.and_allOnes, BitVec.ushiftRight_zero, BitVec.not_allOnes]
  exact write32_eq_merge m _ _

/-- Part of a word is written by keeping the other bits and joining the masked ones. -/
theorem setWord_and_or (mask : BitVec 32) {keep : BitVec 32} {wide : BitVec 64} (m : ByteMem)
    (ptr x : BitVec 64) (i : Nat) (kept : ~~~ mask = keep) (widened : mask.setWidth 64 = wide) :
    setWord m ptr i (word m ptr i &&& keep ||| (x &&& wide).setWidth 32)
      = merge m (wordAt ptr i) (~~~ mask) (x.setWidth 32 &&& mask) := by
  rw [← kept, ← widened, setWidth_and_32]
  rfl

theorem and_low (a : BitVec 64) : (a &&& 0xFFFFFFFF).setWidth 32 = a.setWidth 32 := by
  rw [← BitVec.and_allOnes (x := a.setWidth 32), ← setWidth_and_32]
  rfl

theorem patch57_eq (patch : BitVec 64) : patch57 m ptr patch = storePieces
    ((((word m ptr 8).setWidth 64 &&& 0x1FF) <<< 48 ||| ((word m ptr 2).setWidth 64 &&& 0xFFFF) <<< 32
      ||| (word m ptr 1).setWidth 64) + patch) ptr AddressPatch.patch57.pieces m := by
  simp only [patch57, and_low, AddressPatch.pieces, storePieces]
  rw [setWord_eq_merge, setWord_and_or (ones 16) _ _ _ 2 (by decide) (by decide),
    setWord_and_or (ones 9) _ _ _ 8 (by decide) (by decide)]

theorem patch57Aie4_eq (patch : BitVec 64) : patch57Aie4 m ptr patch = storePieces
    ((((word m ptr 0).setWidth 64 &&& 0x1FFFFFF) <<< 32 ||| (word m ptr 1).setWidth 64)
      + (patch + ddrAieAddrOffset)) ptr AddressPatch.patch57Aie4.pieces m := by
  simp only [patch57Aie4, and_low, AddressPatch.pieces, storePieces]
  rw [setWord_eq_merge, setWord_and_or (ones 25) _ _ _ 0 (by decide) (by decide)]

theorem toNat_clear (a : BitVec 64) : (a >>> 2 <<< 2).toNat = a.toNat / 4 * 4 := by
  rw [BitVec.toNat_shiftLeft, BitVec.toNat_ushiftRight, Nat.shiftLeft_eq,
    Nat.shiftRight_eq_div_pow]
  omega

/-- The two low bits are dropped, and no bit of an address of 48 bits is lost. -/
theorem patch48_eq {base : BitVec 64} (fits : base.toNat < 2 ^ 48)
    (computed : (((word m ptr (low + 1)).setWidth 64 &&& 0xFFF) <<< 32
      ||| (word m ptr low).setWidth 64) + patch + ddrAieAddrOffset = base) :
    patch48 low m ptr patch
      = storePieces (base >>> 2 <<< 2) ptr [⟨low, 32, 0⟩, ⟨low + 1, 16, 32⟩] m := by
  have lower : (base &&& 0xFFFFFFFC).setWidth 32 = (base >>> 2 <<< 2).setWidth 32 := by
    apply BitVec.eq_of_getLsbD_eq
    intro k small
    have bits : ∀ k < 32, (0xFFFFFFFC : BitVec 64).getLsbD k = decide (2 ≤ k) := by decide
    simp only [BitVec.getLsbD_setWidth, BitVec.getLsbD_and, bits k small, small]
    by_cases le : 2 ≤ k
    · have back : 2 + (k - 2) = k := by omega
      simp [le, back]
      omega
    · simp [le]
      omega
  have upper : base >>> 32 = (base >>> 2 <<< 2) >>> 32 &&& 0xFFFF := by
    have same : (0xFFFF : BitVec 64).toNat = 2 ^ 16 - 1 := by decide
    apply BitVec.eq_of_toNat_eq
    rw [BitVec.toNat_and, BitVec.toNat_ushiftRight, BitVec.toNat_ushiftRight, toNat_clear, same,
      Nat.and_two_pow_sub_one_eq_mod, Nat.shiftRight_eq_div_pow, Nat.shiftRight_eq_div_pow]
    omega
  simp only [patch48, computed, storePieces]
  rw [lower, upper, setWord_eq_merge,
    setWord_and_or (ones 16) _ _ _ (low + 1) (by decide) (by decide)]

/-! ### What a patch stores -/

theorem rejoined57 (small : n < 2 ^ 57) : rejoined n AddressPatch.patch57.pieces = n := by
  simp only [rejoined, AddressPatch.pieces]
  omega

theorem rejoined57Aie4 (small : n < 2 ^ 57) : rejoined n AddressPatch.patch57Aie4.pieces = n := by
  simp only [rejoined, AddressPatch.pieces]
  omega

theorem rejoined48 (small : n < 2 ^ 48) : rejoined n [⟨low, 32, 0⟩, ⟨low + 1, 16, 32⟩] = n := by
  simp only [rejoined]
  omega

theorem toNat_offset : ddrAieAddrOffset.toNat = 2 ^ 31 := by decide

theorem patch57_right (fits : AddressPatch.patch57.sum m ptr patch < 2 ^ 57) :
    AddressPatch.patch57.Right m ptr patch := by
  apply (@AddressPatch.right_iff_rejoined _ _ _ _ .patch57 (patch57_eq patch)).mpr
  have sum : AddressPatch.patch57.sum m ptr patch
      = AddressPatch.patch57.address m ptr + patch.toNat := rfl
  rw [sum] at fits
  rw [BitVec.toNat_add, toNat_held57, Nat.mod_eq_of_lt (by omega), rejoined57 fits]
  rfl

theorem patch57Aie4_right (fits : AddressPatch.patch57Aie4.sum m ptr patch < 2 ^ 57) :
    AddressPatch.patch57Aie4.Right m ptr patch := by
  apply (@AddressPatch.right_iff_rejoined _ _ _ _ .patch57Aie4 (patch57Aie4_eq patch)).mpr
  have held := toNat_held (word m ptr 0) (word m ptr 1) 0x1FFFFFF 25 (by decide) (by decide)
  have less := (word m ptr 1).isLt
  have sum : AddressPatch.patch57Aie4.sum m ptr patch = (word m ptr 1).toNat
      + (word m ptr 0).toNat % 2 ^ 25 * 2 ^ 32 + patch.toNat + 2 ^ 31 := by
    simp only [AddressPatch.sum, AddressPatch.address, AddressPatch.pieces, pieced,
      AddressPatch.offset, toNat_offset]
    omega
  have total : ((((word m ptr 0).setWidth 64 &&& 0x1FFFFFF) <<< 32 ||| (word m ptr 1).setWidth 64)
      + (patch + ddrAieAddrOffset)).toNat = AddressPatch.patch57Aie4.sum m ptr patch := by
    rw [sum] at fits ⊢
    rw [BitVec.toNat_add, BitVec.toNat_add, held, toNat_offset]
    omega
  rw [total, rejoined57Aie4 fits]
  rfl

/-- The four bits above the 44 that are read are lost. -/
theorem patch48_right_iff {kind : AddressPatch}
    (narrow : kind.width = 48) (same : kind.apply m ptr patch = patch48 low m ptr patch)
    (pieces : kind.pieces = [⟨low, 32, 0⟩, ⟨low + 1, 16, 32⟩])
    (offset : kind.offset = ddrAieAddrOffset.toNat) (fits : kind.sum m ptr patch < 2 ^ 48) :
    kind.Right m ptr patch ↔ kind.address m ptr < 2 ^ 44 := by
  have held := toNat_held (word m ptr (low + 1)) (word m ptr low) 0xFFF 12 (by decide) (by decide)
  have less := (word m ptr low).isLt
  have address : kind.address m ptr
      = (word m ptr low).toNat + (word m ptr (low + 1)).toNat % 2 ^ 16 * 2 ^ 32 := by
    simp only [AddressPatch.address, pieces, pieced]
    omega
  have sum : kind.sum m ptr patch = kind.address m ptr + patch.toNat + 2 ^ 31 := by
    rw [AddressPatch.sum, offset, toNat_offset]
  rw [sum, address] at fits
  have total : ((((word m ptr (low + 1)).setWidth 64 &&& 0xFFF) <<< 32
      ||| (word m ptr low).setWidth 64) + patch + ddrAieAddrOffset).toNat
      = kind.address m ptr % 2 ^ 44 + patch.toNat + 2 ^ 31 := by
    rw [BitVec.toNat_add, BitVec.toNat_add, held, toNat_offset, address]
    omega
  rw [← address] at fits
  have stores := same.trans (patch48_eq (by rw [total]; omega) rfl)
  rw [← pieces] at stores
  rw [AddressPatch.right_iff_rejoined stores, toNat_clear, total, pieces, rejoined48 (by omega),
    AddressPatch.stored, if_pos narrow, sum]
  omega

/-- A sum that fits is stored, with nothing else changed, by the patches for 57 bits always, by the
others exactly if the descriptor holds an address of 44 bits. -/
theorem patchesAddress_iff (kind : AddressPatch) (m : ByteMem) (ptr patch : BitVec 64)
    (fits : kind.sum m ptr patch < 2 ^ kind.width) :
    kind.Right m ptr patch ↔ (kind.width = 48 → kind.address m ptr < 2 ^ 44) := by
  cases kind with
  | patch57 => exact iff_of_true (patch57_right fits) fun narrow => by cases narrow
  | patch57Aie4 => exact iff_of_true (patch57Aie4_right fits) fun narrow => by cases narrow
  | patchCtrl48 =>
    rw [patch48_right_iff rfl rfl rfl rfl fits]
    exact ⟨fun small _ => small, fun small => small rfl⟩
  | patchShim48 =>
    rw [patch48_right_iff rfl rfl rfl rfl fits]
    exact ⟨fun small _ => small, fun small => small rfl⟩

theorem patchShim48_in_zeros :
    AddressPatch.patchShim48.sum (fun _ => 0) 0 16 < 2 ^ 48
      ∧ AddressPatch.patchShim48.Right (fun _ => 0) 0 16 :=
  ⟨by decide +kernel,
    (patchesAddress_iff .patchShim48 (fun _ => 0) 0 16 (by decide +kernel)).mpr
      fun _ => by decide +kernel⟩

/-- A descriptor with the address 2^44. -/
def highDescriptor : ByteMem := fun a => if a = 9 then 0x10 else 0

theorem patchShim48_loses_bit :
    AddressPatch.patchShim48.sum highDescriptor 0 16 = 2 ^ 44 + 2 ^ 31 + 16
      ∧ AddressPatch.patchShim48.address (patchShim48 highDescriptor 0 16) 0 = 2 ^ 31 + 16
      ∧ ¬ AddressPatch.patchShim48.Right highDescriptor 0 16 := by
  have sum : AddressPatch.patchShim48.sum highDescriptor 0 16 = 2 ^ 44 + 2 ^ 31 + 16 := by
    decide +kernel
  have stored : AddressPatch.patchShim48.address (patchShim48 highDescriptor 0 16) 0
      = 2 ^ 31 + 16 := by
    decide +kernel
  refine ⟨sum, stored, fun right => ?_⟩
  have promised := stored.symm.trans right.1
  rw [sum] at promised
  exact absurd promised (by decide)

end Xrt.Aie
