import Xrt.Aie.Module
import Xrt.Aie.PatchEffect

/-!
# Modules in use

`class module_sram`: the control code of a module is copied to buffer objects, and the arguments are
patched in these copies. The buffers are parts of one memory.
-/
namespace Xrt.Aie

open Lib

/-- The buffer objects that are allocated for a module: where they are mapped, and the addresses that
the device knows two of them by. -/
structure Bos where
  buffer : BitVec 64
  instrBo : BitVec 64
  ctrlpktBo : BitVec 64
  preemptSaveBo : BitVec 64
  preemptRestoreBo : BitVec 64
  ctrlpktAddress : BitVec 64
  scratchPadMemAddress : BitVec 64

structure Sram where
  parent : ModuleElf
  buffer : BitVec 64
  instrBo : BitVec 64
  ctrlpktBo : Option (BitVec 64)
  memory : ByteMem
  patchedArgs : List Text
  dirty : Bool

/-- `memcpy` of the data to a buffer -/
def copyTo (m : ByteMem) (ptr : BitVec 64) (data : List Byte) : ByteMem := fun a =>
  if (a - ptr).toNat < data.length then data.getD (a - ptr).toNat 0 else m a

variable (parent : ModuleElf)

/-- `patch_instr`, with the memory and `m_dirty`. -/
def patchInstr (base : BitVec 64) (argnm : Text) (address : BitVec 64)
    (type : BufType) (s : ByteMem × Bool) : Except Error (ByteMem × Bool) :=
  match parent.patch base argnm 0 address type s.1 with
  | (.ok patched, m) => .ok (m, s.2 || patched)
  | (.error e, _) => .error e

def createCtrlpktBuf (bos : Bos) (m : ByteMem) : Option (BitVec 64) × ByteMem :=
  let data := parent.bufs.ctrlPacket.getD []
  if data.length = 0 then (none, m) else (some bos.ctrlpktBo, copyTo m bos.ctrlpktBo data)

def createInstrBuf (bos : Bos) (ctrlpktBo : Option (BitVec 64)) (m : ByteMem) :
    Except Error (ByteMem × Bool) := do
  let data := parent.bufs.instrBuf
  if data.length = 0 then .error (.runtime "Invalid instruction buffer size")
  else
    let m := copyTo m bos.instrBo data
    let save := parent.bufs.saveBuf.getD []
    let restore := parent.bufs.restoreBuf.getD []
    let s ← if 0 < save.length ∧ 0 < restore.length then do
        let m := copyTo (copyTo m bos.preemptSaveBo save) bos.preemptRestoreBo restore
        let s ← patchInstr parent bos.preemptSaveBo (ascii "scratch-pad-mem")
          bos.scratchPadMemAddress .preemptSave (m, false)
        patchInstr parent bos.preemptRestoreBo (ascii "scratch-pad-mem")
          bos.scratchPadMemAddress .preemptRestore s
      else .ok (m, false)
    if ctrlpktBo.isSome then
      patchInstr parent bos.instrBo (ascii "control-packet") bos.ctrlpktAddress .ctrltext s
    else .ok s

/-- The constructor of `module_sram`, with the memory as it is before. -/
def moduleSram (bos : Bos) (m : ByteMem) : Except Error Sram :=
  if parent.osAbi = elfAmdAie2p then do
    let (ctrlpktBo, m) := createCtrlpktBuf parent bos m
    let (m, dirty) ← createInstrBuf parent bos ctrlpktBo m
    .ok ⟨parent, bos.buffer, bos.instrBo, ctrlpktBo, m, [], dirty⟩
  else if parent.osAbi = elfAmdAie2ps then
    .ok ⟨parent, bos.buffer, bos.instrBo, none, copyTo m bos.buffer parent.ctrlcodes.flatten, [],
      false⟩
  else .ok ⟨parent, bos.buffer, bos.instrBo, none, m, [], false⟩

/-- The end of `patch_value` when nothing was thrown. -/
def Sram.patched (s : Sram) (argnm : Text) (patched : Bool) (m : ByteMem) : Sram :=
  if patched then
    { s with memory := m, patchedArgs := s.patchedArgs.insert argnm, dirty := true }
  else { s with memory := m }

/-- `patch_value`; with its exception, if any. -/
def Sram.patchValue (s : Sram) (argnm : Text) (index : Nat) (value : BitVec 64) :
    Except Error Unit × Sram :=
  if s.parent.osAbi = elfAmdAie2p then
    let first := match s.ctrlpktBo with
      | some base => s.parent.patch base argnm index value .ctrldata s.memory
      | none => (.ok false, s.memory)
    match first with
    | (.error e, m) => (.error e, { s with memory := m })
    | (.ok inCtrlpkt, m) =>
      match s.parent.patch s.instrBo argnm index value .ctrltext m with
      | (.error e, m) => (.error e, { s with memory := m })
      | (.ok inInstr, m) => (.ok (), s.patched argnm (inCtrlpkt || inInstr) m)
  else
    match s.parent.patch s.buffer argnm index value .ctrltext s.memory with
    | (.error e, m) => (.error e, { s with memory := m })
    | (.ok patched, m) => (.ok (), s.patched argnm patched m)

/-! ### What is patched for an argument -/

def ModuleElf.sites (base : BitVec 64) (argnm : Text) (index : Nat) (type : BufType) : List Site :=
  match parent.find argnm index type with
  | none => []
  | some p => p.ctrlcodePatchinfo.map (p.site base)

def Sram.sites (s : Sram) (argnm : Text) (index : Nat) : List Site :=
  if s.parent.osAbi = elfAmdAie2p then
    (match s.ctrlpktBo with
      | some base => s.parent.sites base argnm index .ctrldata
      | none => []) ++ s.parent.sites s.instrBo argnm index .ctrltext
  else s.parent.sites s.buffer argnm index .ctrltext

theorem ModuleElf.patch_cases (base : BitVec 64) (argnm : Text) (index : Nat)
    (value : BitVec 64) (type : BufType) (m : ByteMem) :
    (∃ found m', parent.patch base argnm index value type m = (.ok found, m')
        ∧ patchSites ((parent.sites base argnm index type).map (·, value)) m = (.ok (), m'))
      ∨ ∃ e m', parent.patch base argnm index value type m = (.error e, m')
        ∧ patchSites ((parent.sites base argnm index type).map (·, value)) m = (.error e, m') := by
  unfold ModuleElf.patch ModuleElf.sites
  cases parent.find argnm index type with
  | none => exact Or.inl ⟨false, m, rfl, rfl⟩
  | some p =>
    have same : p.patch base value m
        = patchSites ((p.ctrlcodePatchinfo.map (p.site base)).map (·, value)) m := by
      rw [List.map_map]
      rfl
    simp only [same]
    cases outcome : patchSites ((p.ctrlcodePatchinfo.map (p.site base)).map (·, value)) m with
    | mk result patched =>
      cases result with
      | ok u => exact Or.inl ⟨true, patched, rfl, rfl⟩
      | error e => exact Or.inr ⟨e, patched, rfl, rfl⟩

theorem Sram.patchValue_memory (s : Sram) (argnm : Text) (index : Nat) (value : BitVec 64) :
    (s.patchValue argnm index value).2.memory
      = (patchSites ((s.sites argnm index).map (·, value)) s.memory).2 := by
  have marked : ∀ patched m, (s.patched argnm patched m).memory = m := by
    intro patched m
    cases patched <;> rfl
  unfold patchValue Sram.sites
  split
  · cases ctrlpkt : s.ctrlpktBo with
    | none =>
      rcases s.parent.patch_cases s.instrBo argnm index value .ctrltext s.memory with
        ⟨found, m, patched, sites⟩ | ⟨e, m, patched, sites⟩
      · simp [patched, sites, marked]
      · simp [patched, sites]
    | some base =>
      rcases s.parent.patch_cases base argnm index value .ctrldata s.memory with
        ⟨found, m, patched, sites⟩ | ⟨e, m, patched, sites⟩
      -- the control packet has been patched, the control code comes next
      · rw [List.map_append, patchSites_append_of_ok sites]
        rcases s.parent.patch_cases s.instrBo argnm index value .ctrltext m with
          ⟨found', m', patched', sites'⟩ | ⟨e, m', patched', sites'⟩
        · simp [patched, patched', sites', marked]
        · simp [patched, patched', sites']
      -- an exception in the control packet: the control code is not patched
      · rw [List.map_append, patchSites_append_of_error sites]
        simp [patched]
  · rcases s.parent.patch_cases s.buffer argnm index value .ctrltext s.memory with
      ⟨found, m, patched, sites⟩ | ⟨e, m, patched, sites⟩
    · simp [patched, sites, marked]
    · simp [patched, sites]

theorem Sram.patchValue_sites (s : Sram) (argnm : Text) (index : Nat) (value : BitVec 64) :
    (s.patchValue argnm index value).2.sites = s.sites := by
  have fixed : ∀ t : Sram, t.parent = s.parent → t.buffer = s.buffer → t.instrBo = s.instrBo →
      t.ctrlpktBo = s.ctrlpktBo → t.sites = s.sites := by
    intro t parent buffer instr ctrlpkt
    funext argnm index
    simp only [Sram.sites, parent, buffer, instr, ctrlpkt]
  have marked : ∀ patched m, (s.patched argnm patched m).sites = s.sites := by
    intro patched m
    cases patched <;> exact fixed _ rfl rfl rfl rfl
  -- no branch touches the module or the buffers
  unfold patchValue
  dsimp only
  repeat' split
  all_goals first
    | exact marked _ _
    | exact fixed _ rfl rfl rfl rfl

end Xrt.Aie
