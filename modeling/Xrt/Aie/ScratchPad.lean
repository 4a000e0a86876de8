import Xrt.Aie.RoundTrip

/-!
# The size of the scratch pad

The symbols of the preemption sections are given the largest size that one of their section needs, by
`resize_scratchpad`, and the runtime makes the scratch pad as large as the first of them says. Symbols
of scalars, whose size is a mask, are resized like the others, and what the restore section needs is
not looked at when the save section needs something.
-/
namespace Xrt.Aie

open Lib

/-! ### The assembler -/

/-- The first loop of `resize_scratchpad`. -/
def largest (sectionName : Text) : BitVec 64 → List Symbol → BitVec 64
  | size, [] => size
  | size, sym :: syms =>
    largest sectionName
      (if sym.sectionName ≠ sectionName then size
      else if sym.size + sym.addend.setWidth 64 > size then sym.size + sym.addend.setWidth 64
      else size) syms

def resizeScratchpad (sectionName : Text) (syms : List Symbol) : List Symbol :=
  syms.map fun sym =>
    if sym.sectionName ≠ sectionName then sym
    -- also if the size is the mask of a scalar
    else { sym with size := largest sectionName 0 syms }

/-- The end of `set_args`. -/
def resized (syms : List Symbol) : List Symbol :=
  resizeScratchpad (sectionNameToString .preemptRestore)
    (resizeScratchpad (sectionNameToString .preemptSave) syms)

/-! ### The runtime -/

/-- `Scratch_Pad_Mem_Symbol` -/
def scratchPad : Text := ascii "scratch-pad-mem"

/-- What the loop of `initialize_arg_patchers` does to `m_scratch_pad_mem_size`. -/
def scratchPadMemSize (elf : Elf) (bufs : Bufs) : List Elf32Rela → Nat → Except Error Nat
  | [], size => .ok size
  | rela :: relas, size => do
    let place ← findPlace elf bufs rela
    scratchPadMemSize elf bufs relas
      (if size = 0 ∧ place.argnm = scratchPad then place.stSize.toNat else size)

/-! ### What is right -/

/-- What the buffer behind a symbol has to hold. -/
def Symbol.need (sym : Symbol) : Nat := sym.size.toNat + sym.addend.toNat

def KeepsMask (old new : Symbol) : Prop := old.schema = .scaler32 → new.size = old.size

/-- The file of the symbols after resizing is read with a scratch pad that is large enough for the DMA
patches of both sections, and resizing keeps the masks of scalars. -/
def ScratchPadRight (elf : Elf) (syms : List Symbol) (preempt : List Symbol) : Prop :=
  (∃ bufs size, extractBufs elf = .ok bufs ∧ scratchPadMemSize elf bufs elf.rela 0 = .ok size
    ∧ ∀ sym ∈ preempt, sym.schema = .shimDma48 → sym.need ≤ size)
  ∧ List.Forall₂ KeepsMask syms (resized syms)

/-- A symbol of the preemption code as `patch_helper` makes it: one of the scratch pad, or one of a
scalar with a mask of 32 bits. -/
structure Symbol.Extracted (t : BufType) (sym : Symbol) : Prop where
  inSection : sym.sectionName = sectionNameToString t
  kind : sym.schema = .shimDma48 ∧ sym.name = scratchPad
    ∨ sym.schema = .scaler32 ∧ sym.name ≠ scratchPad ∧ sym.size.toNat < 2 ^ 32

/-- A symbol of other code. -/
structure Symbol.Other (sym : Symbol) : Prop where
  inSection : sym.sectionName ≠ sectionNameToString .preemptSave
    ∧ sym.sectionName ≠ sectionNameToString .preemptRestore
  name : sym.name ≠ scratchPad

/-- No symbol of the section needs more than the mask of a scalar in it. -/
def MasksLargest (syms : List Symbol) : Prop :=
  ∀ sym ∈ syms, sym.schema = .scaler32 → ∀ other ∈ syms, other.need ≤ sym.size.toNat

/-- The DMA patches need less than 4 GiB. Masks are the largest sizes of their sections. If the save
section uses the scratch pad, and something in it needs bytes, the restore section needs no more. -/
structure Sized (save restore : List Symbol) : Prop where
  small : ∀ sym ∈ save ++ restore, sym.schema = .shimDma48 → sym.need < 2 ^ 32
  saveMasks : MasksLargest save
  restoreMasks : MasksLargest restore
  covered : (∃ sym ∈ save, sym.schema = .shimDma48) → (∃ sym ∈ save, sym.need ≠ 0) →
    ∀ sym ∈ restore, sym.schema = .shimDma48 → ∃ other ∈ save, sym.need ≤ other.need

/-! ### Sizes -/

variable {sectionName : Text} {syms : List Symbol}

variable {sym : Symbol} {mwriter : List Writer}

theorem toNat_need (small : sym.need < 2 ^ 64) :
    (sym.size + sym.addend.setWidth 64).toNat = sym.need := by
  have addend := sym.addend.isLt
  rw [Symbol.need] at small ⊢
  rw [BitVec.toNat_add, BitVec.toNat_setWidth]
  omega

theorem largest_append (size : BitVec 64) (front back : List Symbol) :
    largest sectionName size (front ++ back) = largest sectionName (largest sectionName size front) back := by
  induction front generalizing size with
  | nil => rfl
  | cons sym front ih => exact ih _

theorem largest_others (others : ∀ sym ∈ syms, sym.sectionName ≠ sectionName) (size : BitVec 64) :
    largest sectionName size syms = size := by
  induction syms with
  | nil => rfl
  | cons sym syms ih =>
    obtain ⟨first, rest⟩ := List.forall_mem_cons.mp others
    rw [largest, if_pos first, ih rest]

/-- The loop keeps the largest need so far. -/
theorem largest_spec (all : ∀ sym ∈ syms, sym.sectionName = sectionName)
    (small : ∀ sym ∈ syms, sym.need < 2 ^ 64) (size : BitVec 64) :
    size.toNat ≤ (largest sectionName size syms).toNat
      ∧ (∀ sym ∈ syms, sym.need ≤ (largest sectionName size syms).toNat)
      ∧ (largest sectionName size syms = size
        ∨ ∃ sym ∈ syms, (largest sectionName size syms).toNat = sym.need) := by
  induction syms generalizing size with
  | nil => exact ⟨le_rfl, by simp, .inl rfl⟩
  | cons sym syms ih =>
    obtain ⟨here, all⟩ := List.forall_mem_cons.mp all
    obtain ⟨first, small⟩ := List.forall_mem_cons.mp small
    have need := toNat_need first
    rw [largest, if_neg (not_not.mpr here)]
    split
    · next more =>
      rw [gt_iff_lt, BitVec.lt_def, need] at more
      obtain ⟨ge, each, reached⟩ := ih all small (sym.size + sym.addend.setWidth 64)
      rw [need] at ge
      refine ⟨by omega, List.forall_mem_cons.mpr ⟨ge, each⟩, .inr ?_⟩
      rcases reached with same | ⟨other, member, same⟩
      · exact ⟨sym, List.mem_cons_self, by rw [same, need]⟩
      · exact ⟨other, List.mem_cons_of_mem _ member, same⟩
    · next less =>
      rw [gt_iff_lt, BitVec.lt_def, need] at less
      obtain ⟨ge, each, reached⟩ := ih all small size
      refine ⟨ge, List.forall_mem_cons.mpr ⟨by omega, each⟩, reached.imp_right ?_⟩
      exact fun ⟨other, member, same⟩ => ⟨other, List.mem_cons_of_mem _ member, same⟩

def Symbol.withSize (size : BitVec 64) (sym : Symbol) : Symbol := { sym with size := size }

theorem resizeScratchpad_others (others : ∀ sym ∈ syms, sym.sectionName ≠ sectionName) (size : BitVec 64) :
    (syms.map fun sym => if sym.sectionName ≠ sectionName then sym else { sym with size := size })
      = syms := by
  conv_rhs => rw [← List.map_id syms]
  exact List.map_congr_left fun sym member => if_pos (others sym member)

/-- Only the symbols of the section are resized, to the largest need among them. -/
theorem resizeScratchpad_parts {before middle after : List Symbol}
    (front : ∀ sym ∈ before, sym.sectionName ≠ sectionName)
    (all : ∀ sym ∈ middle, sym.sectionName = sectionName)
    (back : ∀ sym ∈ after, sym.sectionName ≠ sectionName) :
    resizeScratchpad sectionName (before ++ middle ++ after)
      = before ++ middle.map (Symbol.withSize (largest sectionName 0 middle)) ++ after := by
  have size : largest sectionName 0 (before ++ middle ++ after) = largest sectionName 0 middle := by
    rw [largest_append, largest_append, largest_others front, largest_others back]
  rw [resizeScratchpad, size, List.map_append, List.map_append, resizeScratchpad_others front,
    resizeScratchpad_others back]
  congr 2
  exact List.map_congr_left fun sym member => if_neg (not_not.mpr (all sym member))

/-! ### Reading the file -/

/-- The first size that is not zero, of the symbols of the scratch pad. -/
def firstSize (size : Nat) (syms : List Symbol) : Nat :=
  syms.foldl (fun size sym =>
    if size = 0 ∧ sym.name = scratchPad then (sym.size.setWidth 32).toNat else size) size

theorem firstSize_append (size : Nat) (front back : List Symbol) :
    firstSize size (front ++ back) = firstSize (firstSize size front) back := List.foldl_append

theorem firstSize_others (others : ∀ sym ∈ syms, sym.name ≠ scratchPad) (size : Nat) :
    firstSize size syms = size := by
  induction syms with
  | nil => rfl
  | cons sym syms ih =>
    obtain ⟨first, rest⟩ := List.forall_mem_cons.mp others
    rw [firstSize, List.foldl_cons, if_neg fun both => first both.2]
    exact ih rest

/-- Among symbols of one size. -/
theorem firstSize_withSize (size : Nat) (one : BitVec 64) :
    firstSize size (syms.map (Symbol.withSize one)) =
      if size = 0 ∧ ∃ sym ∈ syms, sym.name = scratchPad then (one.setWidth 32).toNat else size := by
  induction syms generalizing size with
  | nil => simp [firstSize]
  | cons sym syms ih =>
    have step : firstSize size ((sym :: syms).map (Symbol.withSize one)) = firstSize
        (if size = 0 ∧ sym.name = scratchPad then (one.setWidth 32).toNat else size)
        (syms.map (Symbol.withSize one)) := rfl
    rw [step, ih]
    by_cases zero : size = 0
    · by_cases named : sym.name = scratchPad
      · simp [zero, named]
      · simp [zero, named]
    · simp [zero]

theorem scratchPadMemSize_written {elf : Elf} {bufs : Bufs}
    {sections : List Section} {tables : DynTables} (assembled : Assembled mwriter) (fits : Fits elf)
    (start : sections <+: elf.sections) (dynsym : elf.dynsym = tables.dynsym)
    (dynstr : elf.dynstr = tables.dynstr) (extracted : extractBufs elf = .ok bufs)
    (buf : ∀ t, initializeBuf elf t = (sectionOf mwriter (sectionNameToString t)).map Writer.data)
    {indices : List (BitVec 32)} (members : ∀ sym ∈ syms, sym ∈ collected mwriter)
    (all : List.Forall₂ (Describes sections tables) syms indices) (size : Nat) :
    scratchPadMemSize elf bufs (List.zipWith relaOf syms indices) size = .ok (firstSize size syms) := by
  induction all generalizing size with
  | nil => rfl
  | @cons sym index syms indices describes _ ih =>
    obtain ⟨own, others⟩ := List.forall_mem_cons.mp members
    obtain ⟨w, here, inside⟩ := assembled.placed sym own
    obtain ⟨t, inT⟩ := assembled.sectionName here
    have data : initializeBuf elf t = some w.data := by
      rw [buf, ← inT, here]
      rfl
    have place := findPlace_written fits start dynsym dynstr describes extracted inT data inside
    rw [List.zipWith_cons_cons, scratchPadMemSize, place, ok_bind, ih others]
    rfl

theorem process_scratchPadMemSize (assembled : Assembled mwriter) :
    ∃ elf, process mwriter = .ok elf ∧ (Fits elf → ∃ bufs, extractBufs elf = .ok bufs
      ∧ scratchPadMemSize elf bufs elf.rela 0 = .ok (firstSize 0 (collected mwriter))) := by
  obtain ⟨elf, made, written⟩ := process_written assembled
  refine ⟨elf, made, fun fits => ?_⟩
  obtain ⟨front, back, layout, front', back'⟩ := written.sections
  have buf := initializeBuf_written assembled.named layout front' back'
  obtain ⟨bufs, extracted⟩ := extractBufs_written assembled buf
  obtain ⟨sections, tables, indices, start, dynsym, dynstr, relas, all⟩ := written.tables
  refine ⟨bufs, extracted, ?_⟩
  rw [relas]
  exact scratchPadMemSize_written assembled fits start dynsym dynstr extracted buf
    (fun _ member => member) all 0

/-! ### One section -/

section OneSection

variable {t : BufType} (extracted : ∀ sym ∈ syms, sym.Extracted t)
  (small : ∀ sym ∈ syms, sym.schema = .shimDma48 → sym.need < 2 ^ 32)
include extracted small

theorem need_lt {sym : Symbol} (member : sym ∈ syms) : sym.need < 2 ^ 64 := by
  rcases (extracted sym member).kind with ⟨dma, -⟩ | ⟨-, -, mask⟩
  · exact (small sym member dma).trans (by decide)
  · have addend := sym.addend.isLt
    unfold Symbol.need
    omega

theorem largest_section :
    (∀ sym ∈ syms, sym.need ≤ (largest (sectionNameToString t) 0 syms).toNat)
      ∧ (largest (sectionNameToString t) 0 syms = 0
        ∨ ∃ sym ∈ syms, (largest (sectionNameToString t) 0 syms).toNat = sym.need) :=
  (largest_spec (fun sym member => (extracted sym member).inSection)
    (fun _ member => need_lt extracted small member) 0).2

/-- The masks are kept exactly if they are the largest sizes. -/
theorem masks_iff : (∀ sym ∈ syms, sym.schema = .scaler32 →
      largest (sectionNameToString t) 0 syms = sym.size) ↔ MasksLargest syms := by
  obtain ⟨needs, reached⟩ := largest_section extracted small
  refine forall₃_congr fun sym member scalar => ⟨fun same other inside => ?_, fun most => ?_⟩
  · rw [← same]
    exact needs other inside
  · have own : sym.size.toNat ≤ sym.need := Nat.le_add_right _ _
    have ge := needs sym member
    apply BitVec.eq_of_toNat_eq
    rcases reached with zero | ⟨other, inside, same⟩
    · rw [zero] at ge ⊢
      exact Nat.le_antisymm (Nat.zero_le _) (own.trans ge)
    · have le := most other inside
      omega

theorem largest_lt (masks : MasksLargest syms) :
    (largest (sectionNameToString t) 0 syms).toNat < 2 ^ 32 := by
  rcases (largest_section extracted small).2 with zero | ⟨sym, member, same⟩
  · rw [zero]
    decide
  · rw [same]
    rcases (extracted sym member).kind with ⟨dma, -⟩ | ⟨scalar, -, mask⟩
    · exact small sym member dma
    · exact (masks sym member scalar sym member).trans_lt mask

end OneSection

/-- The name of a symbol tells its kind. -/
theorem Symbol.Extracted.name_iff {t : BufType} (extracted : sym.Extracted t) :
    sym.name = scratchPad ↔ sym.schema = .shimDma48 := by
  rcases extracted.kind with ⟨dma, name⟩ | ⟨scalar, name, -⟩
  · exact iff_of_true name dma
  · exact iff_of_false name (by simp [scalar])

theorem forall₂_append_iff {α β : Type} {R : α → β → Prop} {front back : List α} {front' back' : List β}
    (same : front.length = front'.length) : List.Forall₂ R (front ++ back) (front' ++ back')
      ↔ List.Forall₂ R front front' ∧ List.Forall₂ R back back' := by
  induction front generalizing front' with
  | nil => simp [List.length_eq_zero_iff.mp same.symm]
  | cons a front ih =>
    obtain ⟨a', front', rfl⟩ := List.exists_cons_of_length_eq_add_one same.symm
    simp [ih (Nat.succ.inj same), and_assoc]

theorem keepsMask_withSize (syms : List Symbol) (size : BitVec 64) :
    List.Forall₂ KeepsMask syms (syms.map (Symbol.withSize size))
      ↔ ∀ sym ∈ syms, sym.schema = .scaler32 → size = sym.size := by
  rw [List.forall₂_map_right_iff, List.forall₂_same]
  rfl

/-! ### Both sections -/

section BothSections

variable {others save restore : List Symbol} (other : ∀ sym ∈ others, sym.Other)
  (saved : ∀ sym ∈ save, sym.Extracted .preemptSave)
  (restored : ∀ sym ∈ restore, sym.Extracted .preemptRestore)
include other saved restored

theorem resized_eq :
    resized (others ++ save ++ restore)
      = others ++ save.map (Symbol.withSize (largest (sectionNameToString .preemptSave) 0 save))
        ++ restore.map (Symbol.withSize (largest (sectionNameToString .preemptRestore) 0 restore)) := by
  have apart : sectionNameToString .preemptRestore ≠ sectionNameToString .preemptSave := by decide
  have first := resizeScratchpad_parts (fun sym member => (other sym member).inSection.1)
    (fun sym member => (saved sym member).inSection)
    fun sym member => (restored sym member).inSection.trans_ne apart
  have before : ∀ sym ∈ others ++ save.map (Symbol.withSize
      (largest (sectionNameToString .preemptSave) 0 save)),
      sym.sectionName ≠ sectionNameToString .preemptRestore := by
    intro sym member
    rcases List.mem_append.mp member with old | new
    · exact (other sym old).inSection.2
    · obtain ⟨own, inside, rfl⟩ := List.mem_map.mp new
      exact (saved own inside).inSection.trans_ne apart.symm
  have second := resizeScratchpad_parts before (fun sym member => (restored sym member).inSection)
    (List.forall_mem_nil _)
  rw [List.append_nil, List.append_nil] at second
  rw [resized, first, second]

/-- The size of the first symbol that has one: of the save section, or of the restore section. -/
theorem firstSize_resized :
    firstSize 0 (resized (others ++ save ++ restore)) =
      let first := if ∃ sym ∈ save, sym.schema = .shimDma48
        then ((largest (sectionNameToString .preemptSave) 0 save).setWidth 32).toNat else 0
      if first = 0 ∧ ∃ sym ∈ restore, sym.schema = .shimDma48
        then ((largest (sectionNameToString .preemptRestore) 0 restore).setWidth 32).toNat else first := by
  have skipped := firstSize_others (fun sym member => (other sym member).name) 0
  have inSave : (∃ sym ∈ save, sym.name = scratchPad) ↔ ∃ sym ∈ save, sym.schema = .shimDma48 :=
    exists_congr fun sym => and_congr_right fun member => (saved sym member).name_iff
  have inRestore : (∃ sym ∈ restore, sym.name = scratchPad) ↔ ∃ sym ∈ restore, sym.schema = .shimDma48 :=
    exists_congr fun sym => and_congr_right fun member => (restored sym member).name_iff
  rw [resized_eq other saved restored, firstSize_append, firstSize_append, skipped, firstSize_withSize,
    firstSize_withSize]
  simp only [true_and, inSave, inRestore]

/-- Resizing keeps the masks of other code. -/
theorem resized_masks_iff
    (small : ∀ sym ∈ save ++ restore, sym.schema = .shimDma48 → sym.need < 2 ^ 32) :
    List.Forall₂ KeepsMask (others ++ save ++ restore) (resized (others ++ save ++ restore))
      ↔ MasksLargest save ∧ MasksLargest restore := by
  obtain ⟨smallSave, smallRestore⟩ := List.forall_mem_append.mp small
  rw [resized_eq other saved restored, forall₂_append_iff (by simp), forall₂_append_iff rfl,
    keepsMask_withSize, keepsMask_withSize, masks_iff saved smallSave, masks_iff restored smallRestore,
    and_iff_right (List.forall₂_same.mpr fun sym _ _ => rfl)]

/-- With masks that are the largest sizes, the size is enough exactly if the save section covers the
restore section. -/
theorem firstSize_enough_iff
    (small : ∀ sym ∈ save ++ restore, sym.schema = .shimDma48 → sym.need < 2 ^ 32)
    (saveMasks : MasksLargest save) (restoreMasks : MasksLargest restore) :
    (∀ sym ∈ save ++ restore, sym.schema = .shimDma48 →
        sym.need ≤ firstSize 0 (resized (others ++ save ++ restore)))
      ↔ ((∃ sym ∈ save, sym.schema = .shimDma48) → (∃ sym ∈ save, sym.need ≠ 0) →
        ∀ sym ∈ restore, sym.schema = .shimDma48 → ∃ other ∈ save, sym.need ≤ other.need) := by
  obtain ⟨smallSave, smallRestore⟩ := List.forall_mem_append.mp small
  obtain ⟨saveNeeds, saveReached⟩ := largest_section saved smallSave
  obtain ⟨restoreNeeds, -⟩ := largest_section restored smallRestore
  have saveLow := largest_lt saved smallSave saveMasks
  have restoreLow := largest_lt restored smallRestore restoreMasks
  rw [firstSize_resized other saved restored]
  simp only [BitVec.toNat_setWidth, Nat.mod_eq_of_lt saveLow, Nat.mod_eq_of_lt restoreLow,
    List.forall_mem_append]
  generalize largest (sectionNameToString .preemptSave) 0 save = saveSize at *
  generalize (largest (sectionNameToString .preemptRestore) 0 restore).toNat = restoreSize at *
  -- the restore section is looked at if the save section does not use the pad, or needs nothing
  have fromRestore (free : ∀ sym ∈ save, sym.schema = .shimDma48 → sym.need = 0) :
      (∀ sym ∈ save, sym.schema = .shimDma48 → sym.need ≤
          if ∃ sym ∈ restore, sym.schema = .shimDma48 then restoreSize else 0)
        ∧ ∀ sym ∈ restore, sym.schema = .shimDma48 → sym.need ≤
          if ∃ sym ∈ restore, sym.schema = .shimDma48 then restoreSize else 0 := by
    refine ⟨fun sym member dma => ?_, fun sym member dma => ?_⟩
    · rw [free sym member dma]
      exact Nat.zero_le _
    · rw [if_pos ⟨sym, member, dma⟩]
      exact restoreNeeds sym member
  by_cases used : ∃ sym ∈ save, sym.schema = .shimDma48
  · by_cases zero : saveSize.toNat = 0
    · have nothing (sym : Symbol) (member : sym ∈ save) : sym.need = 0 := by
        have le := saveNeeds sym member
        omega
      simp only [used, zero, if_true, true_and]
      refine iff_of_true (fromRestore fun sym member _ => nothing sym member) fun _ ⟨sym, member, some'⟩ => ?_
      exact absurd (nothing sym member) some'
    · obtain ⟨top, inside, same⟩ : ∃ sym ∈ save, saveSize.toNat = sym.need :=
        saveReached.resolve_left fun none => zero (by rw [none]; rfl)
      simp only [used, zero, if_true, false_and, if_false, forall_const]
      constructor
      · exact fun enough _ sym member dma => ⟨top, inside, (enough.2 sym member dma).trans_eq same⟩
      · intro covered
        refine ⟨fun sym member _ => saveNeeds sym member, fun sym member dma => ?_⟩
        obtain ⟨other, inside', le⟩ := covered ⟨top, inside, same ▸ zero⟩ sym member dma
        exact le.trans (saveNeeds other inside')
  · simp only [used, if_false, true_and, false_imp_iff, iff_true]
    exact fromRestore fun sym member dma => absurd ⟨sym, member, dma⟩ used

/-- The pad is large enough and the masks are kept, exactly if the DMA patches need less than 4 GiB, the
masks are the largest sizes and the save section covers the restore section. -/
theorem scratchPad_right_iff {mwriter : List Writer} (assembled : Assembled mwriter)
    (symbols : collected mwriter = resized (others ++ save ++ restore)) :
    ∃ elf, process mwriter = .ok elf ∧ (Fits elf →
      (ScratchPadRight elf (others ++ save ++ restore) (save ++ restore) ↔ Sized save restore)) := by
  obtain ⟨elf, made, reads⟩ := process_scratchPadMemSize assembled
  refine ⟨elf, made, fun fits => ?_⟩
  obtain ⟨bufs, extracted, size⟩ := reads fits
  rw [symbols] at size
  constructor
  · rintro ⟨⟨bufs', size', extracted', size'', enough⟩, masks⟩
    cases extracted.symm.trans extracted'
    cases size.symm.trans size''
    have low : firstSize 0 (resized (others ++ save ++ restore)) < 2 ^ 32 := by
      rw [firstSize_resized other saved restored]
      dsimp only
      split_ifs
      all_goals first | exact BitVec.isLt _ | decide
    have small (sym : Symbol) (member : sym ∈ save ++ restore) (dma : sym.schema = .shimDma48) :
        sym.need < 2 ^ 32 := (enough sym member dma).trans_lt low
    obtain ⟨saveMasks, restoreMasks⟩ := (resized_masks_iff other saved restored small).mp masks
    exact ⟨small, saveMasks, restoreMasks,
      (firstSize_enough_iff other saved restored small saveMasks restoreMasks).mp enough⟩
  · rintro ⟨small, saveMasks, restoreMasks, covered⟩
    refine ⟨⟨bufs, _, extracted, size, ?_⟩,
      (resized_masks_iff other saved restored small).mpr ⟨saveMasks, restoreMasks⟩⟩
    exact (firstSize_enough_iff other saved restored small saveMasks restoreMasks).mpr covered

end BothSections

/-- A file with a save and a restore section, all of whose symbols are given. -/
def preemptWriters (syms : List Symbol) : List Writer :=
  [⟨sectionNameToString .ctrltext, List.replicate 16 0, syms⟩,
    ⟨sectionNameToString .preemptSave, List.replicate 16 0, []⟩,
    ⟨sectionNameToString .preemptRestore, List.replicate 16 0, []⟩]

def scratchSymbol (t : BufType) (size : BitVec 64) : Symbol :=
  ⟨scratchPad, .shimDma48, 0, 0, size, sectionNameToString t⟩

theorem assembled_preemptWriters {syms : List Symbol} (named : ∀ sym ∈ syms, NulFree sym.name)
    (placed : ∀ sym ∈ syms, sym.pos.toNat < 16 ∧ ∃ t ∈ [BufType.preemptSave, .preemptRestore],
      sym.sectionName = sectionNameToString t) : Assembled (preemptWriters syms) where
  named := by
    simp only [preemptWriters, List.forall_mem_cons]
    exact ⟨⟨_, rfl⟩, ⟨_, rfl⟩, ⟨_, rfl⟩, List.forall_mem_nil _⟩
  paired := rfl
  placed := by
    rw [show collected (preemptWriters syms) = syms ++ [] from rfl, List.append_nil]
    intro sym member
    obtain ⟨inside, t, known, inSection⟩ := placed sym member
    have found : ∀ t ∈ [BufType.preemptSave, .preemptRestore],
        sectionOf (preemptWriters syms) (sectionNameToString t)
          = some ⟨sectionNameToString t, List.replicate 16 0, []⟩ := by
      simp only [List.forall_mem_cons]
      exact ⟨rfl, rfl, List.forall_mem_nil _⟩
    rw [inSection, found t known]
    exact ⟨_, rfl, by simpa using inside⟩
  nulFree := by
    rw [show collected (preemptWriters syms) = syms ++ [] from rfl, List.append_nil]
    exact named

/-- A file whose sections have one symbol each. -/
def pairSymbols (saveSize restoreSize : BitVec 64) : List Symbol :=
  [scratchSymbol .preemptSave saveSize, scratchSymbol .preemptRestore restoreSize]

theorem scratchPad_right_pair :
    ∃ elf, process (preemptWriters (pairSymbols 64 32)) = .ok elf
      ∧ ScratchPadRight elf (pairSymbols 64 32) (pairSymbols 64 32) := by
  have free : NulFree scratchPad := by
    unfold NulFree
    decide
  have assembled : Assembled (preemptWriters (pairSymbols 64 32)) := by
    apply assembled_preemptWriters
    · exact List.forall_mem_cons.mpr ⟨free, List.forall_mem_singleton.mpr free⟩
    · exact List.forall_mem_cons.mpr ⟨⟨by decide, .preemptSave, by simp, rfl⟩,
        List.forall_mem_singleton.mpr ⟨by decide, .preemptRestore, by simp, rfl⟩⟩
  have symbols : collected (preemptWriters (pairSymbols 64 32))
      = resized ([] ++ [scratchSymbol .preemptSave 64] ++ [scratchSymbol .preemptRestore 32]) := by
    decide
  obtain ⟨elf, made, right⟩ := scratchPad_right_iff (List.forall_mem_nil _)
    (List.forall_mem_singleton.mpr ⟨rfl, .inl ⟨rfl, rfl⟩⟩)
    (List.forall_mem_singleton.mpr ⟨rfl, .inl ⟨rfl, rfl⟩⟩) assembled symbols
  refine ⟨elf, made, (right ?_).mpr ⟨by decide, ?_, ?_, fun _ _ => by decide⟩⟩
  · cases made
    exact ⟨by decide, by decide, by decide⟩
  · exact List.forall_mem_singleton.mpr nofun
  · exact List.forall_mem_singleton.mpr nofun

/-- A save section with a scalar, and a restore section that needs twice as much. -/
def largeRestore : List Symbol :=
  [scratchSymbol .preemptSave 0x40000,
    ⟨ascii "3", .scaler32, 4, 0, 0x1FFFF, sectionNameToString .preemptSave⟩,
    scratchSymbol .preemptRestore 0x80000]

/-- The mask of the scalar is overwritten, and the scratch pad is too small for the restore section. -/
theorem scratchPad_too_small :
    (resized largeRestore).map Symbol.size = [0x40000, 0x40000, 0x80000]
      ∧ ∃ elf bufs, process (preemptWriters (resized largeRestore)) = .ok elf ∧ Fits elf
        ∧ extractBufs elf = .ok bufs ∧ scratchPadMemSize elf bufs elf.rela 0 = .ok 0x40000
        ∧ ¬ ScratchPadRight elf largeRestore largeRestore := by
  refine ⟨by decide, _, _, rfl, ⟨by decide, by decide, by decide⟩, rfl, rfl, ?_⟩
  rintro ⟨-, masks⟩
  have sizes : resized largeRestore = [scratchSymbol .preemptSave 0x40000,
      ⟨ascii "3", .scaler32, 4, 0, 0x40000, sectionNameToString .preemptSave⟩,
      scratchSymbol .preemptRestore 0x80000] := by decide
  rw [sizes, largeRestore, List.forall₂_cons, List.forall₂_cons] at masks
  exact absurd (masks.2.1 rfl) (by decide)

end Xrt.Aie
