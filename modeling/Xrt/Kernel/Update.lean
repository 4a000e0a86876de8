import Xrt.Kernel.Argument

/-!
# Updating an argument of a running kernel

An update sends an ERT_INIT_CU command: behind the CU masks its payload has pairs of a register
offset and the value for it. The value is also kept in the payload of the start command, where it
is copied to the registers byte by byte.
-/
namespace Xrt.Kernel

open Lib

/-- `ert_start_kernel_cmd`: the masks at the head of `data`, and the registers behind them. -/
structure StartKernelCmd where
  extraCuMasks : BitVec 2
  cuMask : BitVec 32
  masks : Nat → BitVec 32
  regmap : List Byte

/-- `ert_init_kernel_cmd`. The words of the command buffer from `data` on are numbered from 0. -/
structure InitKernelCmd where
  extraCuMasks : BitVec 2
  count : BitVec 11
  cuMask : BitVec 32
  data : Nat → BitVec 32

structure RunUpdateType where
  /-- The start command of the run. -/
  rcmd : StartKernelCmd
  kcmd : InitKernelCmd

namespace RunUpdateType

def dataOffset : Nat := 9

def resetCmd (kcmd : InitKernelCmd) : InitKernelCmd :=
  { kcmd with count := BitVec.ofNat 11 (dataOffset + kcmd.extraCuMasks.toNat) }

/-- The constructor. The command buffer is not cleared. -/
def create (rcmd : StartKernelCmd) (buffer : InitKernelCmd) : RunUpdateType where
  rcmd := rcmd
  kcmd := resetCmd
    { buffer with
      extraCuMasks := rcmd.extraCuMasks
      cuMask := rcmd.cuMask
      data := fun i => if i < rcmd.extraCuMasks.toNat then rcmd.masks i else buffer.data i }

/-- The loop over the value, which is a range of bytes. -/
def emit : List Byte → Nat → Nat → (Nat → BitVec 32) → Nat → BitVec 32
  | [], _, _, data => data
  | v :: value, idx, offset, data =>
    let data := Function.update data idx (BitVec.ofNat 32 offset)
    let data := Function.update data (idx + 1) (v.setWidth 32)
    emit value (idx + 2) (offset + 4) data

/-- Up to the point where the command is run. -/
def updateArgValue (update : RunUpdateType) (arg : Argument) (value : List Byte) :
    RunUpdateType :=
  let kcmd := resetCmd update.kcmd
  let idx := kcmd.count.toNat - dataOffset
  let kcmd := { kcmd with
    data := emit value idx arg.offset kcmd.data
    count := kcmd.count + BitVec.ofNat 11 (value.length * 2) }
  -- the value is also kept for later starts
  { kcmd := kcmd
    rcmd := { update.rcmd with
      regmap := HsArgSetter.setArgValue update.rcmd.regmap arg value } }

end RunUpdateType

/-! ### What the command says -/

namespace InitKernelCmd

variable (kcmd : InitKernelCmd)

/-- The words behind the masks, as far as the count goes. -/
def regmapWords : Nat :=
  kcmd.count.toNat - (RunUpdateType.dataOffset + kcmd.extraCuMasks.toNat)

/-- The pairs of a register offset and the value for it. -/
def pairs : List (BitVec 32 × BitVec 32) :=
  (List.range (kcmd.regmapWords / 2)).map fun k =>
    (kcmd.data (kcmd.extraCuMasks.toNat + 2 * k), kcmd.data (kcmd.extraCuMasks.toNat + 2 * k + 1))

def Writes (arg : Argument) (value : List Byte) : Prop :=
  kcmd.pairs = (words value).mapIdx (fun k word => (BitVec.ofNat 32 (arg.offset + 4 * k), word))
    ∧ kcmd.count.toNat
      = RunUpdateType.dataOffset + kcmd.extraCuMasks.toNat + 2 * (words value).length

instance (kcmd : InitKernelCmd) (arg : Argument) (value : List Byte) :
    Decidable (kcmd.Writes arg value) := inferInstanceAs (Decidable (_ ∧ _))

end InitKernelCmd

namespace RunUpdateType

variable {update : RunUpdateType} {arg : Argument} {value : List Byte}

theorem emit_before (value : List Byte) (idx offset : Nat) (data : Nat → BitVec 32) {i : Nat}
    (before : i < idx) : emit value idx offset data i = data i := by
  induction value generalizing idx offset data with
  | nil => rfl
  | cons v value ih =>
    rw [emit, ih _ _ _ (by omega), Function.update_of_ne (by omega),
      Function.update_of_ne (by omega)]

theorem emit_pair (value : List Byte) (idx offset : Nat) (data : Nat → BitVec 32) {k : Nat}
    (inside : k < value.length) :
    emit value idx offset data (idx + 2 * k) = BitVec.ofNat 32 (offset + 4 * k)
      ∧ emit value idx offset data (idx + 2 * k + 1) = value[k].setWidth 32 := by
  induction value generalizing idx offset data k with
  | nil => cases inside
  | cons v value ih =>
    rw [emit]
    cases k with
    | zero =>
      -- the rest of the loop is behind the first pair
      rw [emit_before _ _ _ _ (by omega), emit_before _ _ _ _ (by omega)]
      simp
    | succ k =>
      have later := ih (idx + 2) (offset + 4)
        (Function.update (Function.update data idx (BitVec.ofNat 32 offset)) (idx + 1)
          (v.setWidth 32)) (Nat.lt_of_succ_lt_succ inside)
      rw [show idx + 2 * (k + 1) = idx + 2 + 2 * k by omega,
        show offset + 4 * (k + 1) = offset + 4 + 4 * k by omega]
      exact later

@[simp]
theorem updateArgValue_extraCuMasks :
    (update.updateArgValue arg value).kcmd.extraCuMasks = update.kcmd.extraCuMasks := rfl

theorem resetCmd_count (kcmd : InitKernelCmd) :
    (resetCmd kcmd).count.toNat = dataOffset + kcmd.extraCuMasks.toNat := by
  rw [resetCmd, BitVec.toNat_ofNat, dataOffset, Nat.mod_eq_of_lt (by omega)]

theorem updateArgValue_count (update : RunUpdateType) (arg : Argument) (value : List Byte) :
    (update.updateArgValue arg value).kcmd.count.toNat
      = (dataOffset + update.kcmd.extraCuMasks.toNat + 2 * value.length) % 2 ^ 11 := by
  change ((resetCmd update.kcmd).count + BitVec.ofNat 11 (value.length * 2)).toNat = _
  rw [BitVec.toNat_add, BitVec.toNat_ofNat, Nat.add_mod_mod, resetCmd_count,
    Nat.mul_comm value.length]

theorem updateArgValue_pairs
    (room : dataOffset + update.kcmd.extraCuMasks.toNat + 2 * value.length < 2 ^ 11) :
    (update.updateArgValue arg value).kcmd.pairs
      = value.mapIdx fun k byte => (BitVec.ofNat 32 (arg.offset + 4 * k), byte.setWidth 32) := by
  have count : (update.updateArgValue arg value).kcmd.regmapWords = 2 * value.length := by
    rw [InitKernelCmd.regmapWords, updateArgValue_count, Nat.mod_eq_of_lt room,
      updateArgValue_extraCuMasks, Nat.add_sub_cancel_left]
  have start : (resetCmd update.kcmd).count.toNat - dataOffset
      = update.kcmd.extraCuMasks.toNat := by
    rw [resetCmd_count, Nat.add_sub_cancel_left]
  rw [InitKernelCmd.pairs, count, Nat.mul_div_cancel_left _ Nat.two_pos]
  apply List.ext_getElem
  · simp
  · intro k left right
    have inside : k < value.length := by simpa using left
    have pair := emit_pair value (update.kcmd.extraCuMasks.toNat) arg.offset
      (resetCmd update.kcmd).data inside
    rw [List.getElem_map, List.getElem_range, List.getElem_mapIdx, updateArgValue_extraCuMasks]
    change (emit _ ((resetCmd update.kcmd).count.toNat - dataOffset) _ _ _,
      emit _ ((resetCmd update.kcmd).count.toNat - dataOffset) _ _ _) = _
    rw [start, pair.1, pair.2]

/-- The start command has the value in the registers of the argument. The update command writes
each byte of it to a register of its own: it writes the value only if that is empty. -/
theorem updateArgValue_writes_iff (update : RunUpdateType) (arg : Argument) (value : List Byte)
    (_offset : 4 ∣ arg.offset) (_size : 4 ∣ arg.size) (whole : 4 ∣ value.length)
    (fits : value.length ≤ arg.size)
    (inside : arg.offset + arg.size ≤ update.rcmd.regmap.length) :
    slice (update.updateArgValue arg value).rcmd.regmap arg.offset value.length = value
      ∧ ((update.updateArgValue arg value).kcmd.Writes arg value ↔ value = []) := by
  refine ⟨HsArgSetter.slice_setArgValue (by omega) fits, ?_⟩
  have count := updateArgValue_count update arg value
  constructor
  · -- the count is that of the words only if there are none
    rintro ⟨-, covered⟩
    have number := length_words whole
    -- two words for each byte, and wrapped to 11 bits, are not two for each word
    rw [count, updateArgValue_extraCuMasks] at covered
    exact List.length_eq_zero_iff.mp (by omega)
  · rintro rfl
    refine ⟨updateArgValue_pairs ?_, ?_⟩
    · simp only [dataOffset, List.length_nil]
      omega
    · rw [count, Nat.mod_eq_of_lt]
      · rfl
      · simp only [dataOffset, List.length_nil]
        omega

def sampleUpdate : RunUpdateType :=
  create ⟨0, 1, fun _ => 0, List.replicate 32 0⟩ ⟨0, 0, 0, fun _ => 0⟩

theorem empty_update_writes :
    (sampleUpdate.updateArgValue ⟨ascii "n", 16, 4, 0, .input⟩ []).kcmd.Writes
      ⟨ascii "n", 16, 4, 0, .input⟩ [] :=
  (updateArgValue_writes_iff sampleUpdate ⟨ascii "n", 16, 4, 0, .input⟩ [] (by decide) (by decide)
    (by decide) (by decide) (by decide)).2.mpr rfl

/-- The four bytes of one word become four registers. -/
theorem word_update_spreads :
    ¬ (sampleUpdate.updateArgValue ⟨ascii "n", 16, 4, 0, .input⟩ [1, 2, 3, 4]).kcmd.Writes
        ⟨ascii "n", 16, 4, 0, .input⟩ [1, 2, 3, 4]
      ∧ (sampleUpdate.updateArgValue ⟨ascii "n", 16, 4, 0, .input⟩ [1, 2, 3, 4]).kcmd.pairs
        = [(16, 1), (20, 2), (24, 3), (28, 4)]
      ∧ (words [1, 2, 3, 4]).mapIdx (fun k word => (BitVec.ofNat 32 (16 + 4 * k), word))
        = [(16, 0x04030201)]
      ∧ slice (sampleUpdate.updateArgValue ⟨ascii "n", 16, 4, 0, .input⟩ [1, 2, 3, 4]).rcmd.regmap
        16 4 = [1, 2, 3, 4] := by
  decide

end RunUpdateType

end Xrt.Kernel
