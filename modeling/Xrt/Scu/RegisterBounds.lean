import Xrt.Scu.Core

/-!
# The bounds of the soft-kernel registers

The registers of a soft kernel are a buffer of `SOFT_KERNEL_REG_SIZE` bytes. `scu_xgq_start` takes the
number of arguments from the count in the header of the command. `zxgq_fetch_request` cuts a payload
off at the end of the slot, but leaves the count as it came.

Here the two buffers have their sizes, and an access outside of them has no result. Where the copy
succeeds it is that of `XrtCuScu.scuConfigure`.
-/
namespace Xrt.Scu

def SOFT_KERNEL_REG_SIZE : Nat := 4096

/-- A command in the buffer of `zxgq_fetch_request`: the count of its header, and the words that were
copied, the two of the header first. -/
structure Fetched where
  count : Nat
  words : List (BitVec 32)
deriving DecidableEq, Repr

/-- The bits 16 to 30 of the first word are the size of the payload in bytes. -/
def zxgqFetchRequest (slotSize : Nat) (slot : Nat → BitVec 32) : Fetched :=
  let count := ((slot 0 >>> 16) &&& 0x7FFF).toNat
  let cnt := if count + 8 > slotSize then slotSize - 8 else count
  ⟨count, (List.range (2 + cnt / 4)).map slot⟩

/-- The word at an index of `cu_regfile` lies inside the buffer. -/
def RegInside (index : Nat) : Prop := 4 * index + 4 ≤ SOFT_KERNEL_REG_SIZE

instance (index : Nat) : Decidable (RegInside index) := inferInstanceAs (Decidable (_ ≤ _))

theorem regInside_iff {index : Nat} : RegInside index ↔ index ≤ 1023 := by
  rw [RegInside, SOFT_KERNEL_REG_SIZE]
  omega

namespace Fetched

/-- The loop of `scu_xgq_start`: `data` follows the header of 8 bytes. -/
def copyArgs (cmd : Fetched) : (left i : Nat) → XrtCuScu → Option XrtCuScu
  | 0, _, scu => some scu
  | left + 1, i, scu =>
    match cmd.words[2 + i]? with
    | none => none
    | some arg =>
      if RegInside (i + 1) then
        copyArgs cmd left (i + 1) { scu with cuRegfile := Function.update scu.cuRegfile (i + 1) arg }
      else none

/-- The structure of the command has nothing but its header and `data`, so that the subtraction from
the count is one of 0. -/
def scuXgqStart (cmd : Fetched) (scu : XrtCuScu) : Option XrtCuScu :=
  cmd.copyArgs (cmd.count / 4) 0 { scu with numReg := cmd.count / 4 }

def scuConfigure (kdsEcho : Bool) (cmd : Fetched) (scu : XrtCuScu) : Option XrtCuScu :=
  if kdsEcho then some scu else cmd.scuXgqStart scu

def scuSubmitConfig (kdsEcho : Bool) (cmd : Fetched) (xcmd : Command) (scu : XrtCuScu) :
    Option XrtCuScu :=
  (cmd.scuConfigure kdsEcho scu).map fun scu => { scu with submitted := scu.submitted ++ [xcmd] }

variable {cmd : Fetched} {left i : Nat} {scu scu' : XrtCuScu}

theorem copyArgs_iff :
    cmd.copyArgs left i scu = some scu' ↔
      (left = 0 ∨ 2 + i + left ≤ cmd.words.length ∧ RegInside (i + left)) ∧
        scu' = { scu with cuRegfile := fun j =>
          if i < j ∧ j ≤ i + left then cmd.words.getD (j + 1) 0 else scu.cuRegfile j } := by
  induction left generalizing i scu with
  | zero =>
    have none (j : Nat) : ¬ (i < j ∧ j ≤ i + 0) := by omega
    simp only [copyArgs, Option.some.injEq, true_or, true_and, none, if_false]
    exact eq_comm
  | succ left ih =>
    rw [copyArgs]
    split
    next missing =>
      rw [List.getElem?_eq_none_iff] at missing
      constructor
      · intro stuck
        cases stuck
      · rintro ⟨fits, -⟩
        omega
    next arg found =>
      obtain ⟨lt, -⟩ := List.getElem?_eq_some_iff.mp found
      split
      next inside =>
        rw [regInside_iff] at inside
        rw [ih]
        simp only [regInside_iff]
        refine and_congr (by omega) ?_
        -- the word of this round is the first of the range
        have same (j : Nat) : (if i + 1 < j ∧ j ≤ i + 1 + left then cmd.words.getD (j + 1) 0
            else Function.update scu.cuRegfile (i + 1) arg j) =
              if i < j ∧ j ≤ i + (left + 1) then cmd.words.getD (j + 1) 0 else scu.cuRegfile j := by
          by_cases first : j = i + 1
          · subst first
            rw [if_neg (by omega), if_pos (by omega), Function.update_self, List.getD_eq_getElem?_getD,
              show i + 1 + 1 = 2 + i by omega, found, Option.getD_some]
          · rw [Function.update_of_ne first]
            exact if_congr (by omega) rfl rfl
        simp only [same]
      next outside =>
        rw [regInside_iff] at outside
        simp only [regInside_iff]
        constructor
        · intro stuck
          cases stuck
        · rintro ⟨fits, -⟩
          omega

/-- The copy that stays inside both buffers is the one of the soft CU core. -/
theorem scuXgqStart_eq (ok : cmd.scuXgqStart scu = some scu') :
    scu' = scu.scuConfigure ((cmd.words.drop 2).take (cmd.count / 4)) := by
  obtain ⟨whole, rfl⟩ := copyArgs_iff.mp ok
  have length : ((cmd.words.drop 2).take (cmd.count / 4)).length = cmd.count / 4 := by
    rw [List.length_take, List.length_drop]
    omega
  simp only [XrtCuScu.scuConfigure, length, XrtCuScu.mk.injEq, true_and, and_true]
  funext j
  by_cases inside : 0 < j ∧ j ≤ 0 + cmd.count / 4
  · rw [if_pos inside, if_pos (by omega)]
    simp only [List.getD_eq_getElem?_getD]
    rw [List.getElem?_take_of_lt (by omega), List.getElem?_drop, show 2 + (j - 1) = j + 1 by omega]
  · rw [if_neg inside, if_neg (by omega)]

/-- The command can be copied and the return code behind its arguments read. -/
theorem scuXgqStart_inside_iff :
    (∃ scu', cmd.scuXgqStart scu = some scu' ∧ RegInside (scu'.numReg + 1)) ↔
      (cmd.count / 4 = 0 ∨ 2 + cmd.count / 4 ≤ cmd.words.length) ∧ cmd.count / 4 ≤ 1022 := by
  simp only [scuXgqStart, copyArgs_iff, regInside_iff]
  constructor
  · rintro ⟨_, ⟨fits, rfl⟩, code⟩
    dsimp only at code
    omega
  · rintro ⟨fits, few⟩
    refine ⟨_, ⟨?_, rfl⟩, ?_⟩
    · omega
    · dsimp only
      omega

end Fetched

theorem zxgqFetchRequest_whole_iff (slotSize : Nat) (slot : Nat → BitVec 32) :
    2 + (zxgqFetchRequest slotSize slot).count / 4 ≤ (zxgqFetchRequest slotSize slot).words.length ↔
      (zxgqFetchRequest slotSize slot).count / 4 ≤ (slotSize - 8) / 4 := by
  simp only [zxgqFetchRequest, List.length_map, List.length_range]
  split <;> omega

/-- Every access that submits the command and completes it is inside its buffer if and only if the
slot has all arguments of the count and the registers have them and one word more. -/
theorem submit_inside_iff (kdsEcho : Bool) (slotSize : Nat) (slot : Nat → BitVec 32) (xcmd : Command)
    (scu : XrtCuScu) :
    (∃ scu', (zxgqFetchRequest slotSize slot).scuSubmitConfig kdsEcho xcmd scu = some scu' ∧
        (kdsEcho = false → RegInside (scu'.numReg + 1))) ↔
      kdsEcho = true ∨ (zxgqFetchRequest slotSize slot).count / 4 ≤ min ((slotSize - 8) / 4) 1022 := by
  cases kdsEcho with
  | true => simp [Fetched.scuSubmitConfig, Fetched.scuConfigure]
  | false =>
    have inside := @Fetched.scuXgqStart_inside_iff (zxgqFetchRequest slotSize slot) scu
    rw [zxgqFetchRequest_whole_iff] at inside
    have same : (∃ scu', (zxgqFetchRequest slotSize slot).scuSubmitConfig false xcmd scu = some scu' ∧
        (false = false → RegInside (scu'.numReg + 1))) ↔
          ∃ scu', (zxgqFetchRequest slotSize slot).scuXgqStart scu = some scu' ∧
            RegInside (scu'.numReg + 1) := by
      simp [Fetched.scuSubmitConfig, Fetched.scuConfigure]
    rw [same, inside]
    simp only [Bool.false_eq_true, false_or]
    omega

/-- A count of 4092 in a slot of 4096 bytes: 4088 bytes of the payload are there, and 1023 arguments
are copied. -/
theorem large_count_outside :
    (zxgqFetchRequest 4096 fun _ => 0x0FFC0000).scuSubmitConfig false ⟨0, [], .new, 0⟩
      (XrtCuScu.init fun _ => 0) = none := by
  rw [Option.eq_none_iff_forall_not_mem]
  intro scu' ok
  obtain ⟨made, start, -⟩ := Option.map_eq_some_iff.mp ok
  simp only [Fetched.scuConfigure, Bool.false_eq_true, if_false, Fetched.scuXgqStart] at start
  obtain ⟨fits, -⟩ := Fetched.copyArgs_iff.mp start
  have count : (zxgqFetchRequest 4096 fun _ => 0x0FFC0000).count = 4092 := by decide
  have whole := fits.resolve_left (by rw [count]; decide)
  have copied := (zxgqFetchRequest_whole_iff 4096 fun _ => 0x0FFC0000).mp whole.1
  rw [count] at copied
  exact absurd copied (by decide)

end Xrt.Scu
