import Xrt.Aie.Sram

/-!
# Setting arguments again

A scalar replaces the bits of its mask, so that nothing is left of an earlier value. An address is
added to what the words hold, earlier values included. Only the last value of every argument counts
as long as no address is added to bits of a value that is set again later.
-/
namespace Xrt.Aie

open Lib

/-- One call of `patch_value`. -/
structure Setting where
  argnm : Text
  index : Nat
  value : BitVec 64
deriving DecidableEq, Repr

def Setting.arg (x : Setting) : Text × Nat := (x.argnm, x.index)

/-- The application goes on after an exception. -/
def Sram.set (s : Sram) (x : Setting) : Sram := (s.patchValue x.argnm x.index x.value).2

def Sram.setAll (s : Sram) (xs : List Setting) : Sram := xs.foldl Sram.set s

def lastSettings : List Setting → List Setting
  | [] => []
  | x :: xs => if ∃ y ∈ xs, y.arg = x.arg then lastSettings xs else x :: lastSettings xs

def Sram.patches (s : Sram) (x : Setting) : List Site :=
  (s.sites x.argnm x.index).takeWhile Site.runs

def upTo (arg : Text × Nat) : List Setting → List Setting
  | [] => []
  | x :: xs => if x.arg = arg then [x] else x :: upTo arg xs

/-- Between a setting of an argument and the next one of the same argument, this one included, no
address is added to bits that the setting may have changed. -/
def Undisturbed (s : Sram) : List Setting → Prop
  | [] => True
  | x :: xs =>
    ((∃ y ∈ xs, y.arg = x.arg) → ∀ y ∈ upTo x.arg xs, ∀ q ∈ s.patches y, ∀ p ∈ s.patches x,
      Disjoint q.sources p.changes) ∧ Undisturbed s xs

/-! ### Sites as operations -/

def changesOf (sites : List Site) : Set Bit := {b | ∃ p ∈ sites, b ∈ p.changes}

def applyAll (sites : List Site) (value : BitVec 64) (m : ByteMem) : ByteMem :=
  sites.foldl (fun m site => site.apply value m) m

theorem applyAll_cons (q : Site) (sites : List Site) (value : BitVec 64) (m : ByteMem) :
    applyAll (q :: sites) value m = applyAll sites value (q.apply value m) := rfl

variable {sites : List Site} {value : BitVec 64} {m n : ByteMem} {S : Set Bit}

theorem applyAll_agreeOff (runs : ∀ q ∈ sites, q.runs = true)
    (apart : ∀ q ∈ sites, Disjoint q.sources S) (agree : AgreeOff S m n) :
    AgreeOff S (applyAll sites value m) (applyAll sites value n) := by
  -- each site keeps the agreement of the two memories
  induction sites generalizing m n with
  | nil => exact agree
  | cons q sites ih =>
    rw [List.forall_mem_cons] at runs apart
    exact ih runs.2 apart.2 ((q.acts runs.1 value).agreeOff apart.1 agree)

theorem applyAll_changes (runs : ∀ q ∈ sites, q.runs = true) :
    AgreeOff (changesOf sites) (applyAll sites value m) m := by
  induction sites generalizing m with
  | nil => exact fun b _ => rfl
  | cons q sites ih =>
    rw [List.forall_mem_cons] at runs
    intro b outside
    have later : b ∉ changesOf sites := fun ⟨p, member, inside⟩ =>
      outside ⟨p, List.mem_cons_of_mem q member, inside⟩
    have first : b ∉ q.changes := fun inside => outside ⟨q, List.mem_cons_self, inside⟩
    -- the sites behind it, and then the first one, leave the bit
    rw [applyAll_cons, ih runs.2 b later, (q.acts runs.1 value).frame m b first]

theorem scalar_of_disjoint {q : Site} (runs : q.runs = true) (apart : Disjoint q.sources q.changes) :
    q.symbolType = .scalar32bitKind := by
  have low : ∀ a, bitOf a 0 ∈ masked a (BitVec.allOnes 32) := fun a => ⟨0, by decide, rfl⟩
  have shared : ∀ b, b ∈ q.sources → b ∈ q.changes → False := fun b source =>
    Set.disjoint_left.mp apart source
  -- every kind of address reads and writes the lowest bit of a word
  cases type : q.symbolType with
  | scalar32bitKind => rfl
  | shimDmaBaseAddrSymbolKind =>
    simp only [Site.sources, Site.changes, type] at shared
    exact (shared _ (Or.inl (Or.inl (low _))) (Or.inl (Or.inl (low _)))).elim
  | shimDmaAie4BaseAddrSymbolKind =>
    simp only [Site.sources, Site.changes, type] at shared
    exact (shared _ (Or.inl (low _)) (Or.inl (low _))).elim
  | controlPacket48 =>
    simp only [Site.sources, Site.changes, type] at shared
    exact (shared _ (Or.inl (low _)) (Or.inl (low _))).elim
  | shimDma48 =>
    simp only [Site.sources, Site.changes, type] at shared
    exact (shared _ (Or.inl (low _)) (Or.inl (low _))).elim
  | _ => simp [Site.runs, type] at runs

/-- Nothing is left of memories that differ only in bits that scalars replace. -/
theorem applyAll_scalars (runs : ∀ q ∈ sites, q.runs = true)
    (scalars : ∀ q ∈ sites, q.symbolType = .scalar32bitKind) (agree : AgreeOff (changesOf sites) m n) :
    applyAll sites value m = applyAll sites value n := by
  induction sites generalizing m n with
  | nil => exact ext_bitAt fun b => agree b fun ⟨_, member, _⟩ => List.not_mem_nil member
  | cons q sites ih =>
    rw [List.forall_mem_cons] at runs scalars
    rw [applyAll_cons, applyAll_cons]
    refine ih runs.2 scalars.2 ?_
    intro b outside
    -- a scalar writes its bits whatever they were; the others are as before
    by_cases replaced : b ∈ q.changes
    · rw [q.apply_scalar scalars.1 runs.1, q.apply_scalar scalars.1 runs.1]
      apply bitAt_replace
      simpa only [Site.changes, scalars.1] using replaced
    · have same : bitAt m b = bitAt n b := by
        apply agree b
        rintro ⟨p, member, inside⟩
        rcases List.mem_cons.mp member with rfl | later
        · exact replaced inside
        · exact outside ⟨p, later, inside⟩
      have acts := q.acts runs.1 value
      rw [acts.frame m b replaced, acts.frame n b replaced, same]

/-! ### Settings -/

theorem patches_runs (s : Sram) (x : Setting) : ∀ q ∈ s.patches x, q.runs = true :=
  fun _ member => List.mem_takeWhile_imp member

theorem Sram.set_memory (s : Sram) (x : Setting) :
    (s.set x).memory = applyAll (s.patches x) x.value s.memory := by
  rw [Sram.set, patchValue_memory, patchSites_snd, List.takeWhile_map, List.foldl_map]
  rfl

theorem Sram.patches_set (s : Sram) (x : Setting) : (s.set x).patches = s.patches := by
  unfold Sram.patches Sram.set
  rw [patchValue_sites]

def setMemory (patches : Setting → List Site) (m : ByteMem) (xs : List Setting) : ByteMem :=
  xs.foldl (fun m x => applyAll (patches x) x.value m) m

theorem Sram.setAll_memory (s : Sram) (xs : List Setting) :
    (s.setAll xs).memory = setMemory s.patches s.memory xs := by
  induction xs generalizing s with
  | nil => rfl
  | cons x xs ih =>
    have step : s.setAll (x :: xs) = (s.set x).setAll xs := rfl
    rw [step, ih, patches_set, set_memory]
    rfl

theorem patches_of_arg (s : Sram) {x y : Setting} (same : y.arg = x.arg) :
    s.patches y = s.patches x := by
  have names : y.argnm = x.argnm := congrArg Prod.fst same
  have indices : y.index = x.index := congrArg Prod.snd same
  rw [Sram.patches, Sram.patches, names, indices]

theorem setMemory_forgets (s : Sram) {x : Setting} {xs : List Setting}
    (again : ∃ y ∈ xs, y.arg = x.arg)
    (apart : ∀ y ∈ upTo x.arg xs, ∀ q ∈ s.patches y, ∀ p ∈ s.patches x,
      Disjoint q.sources p.changes)
    (agree : AgreeOff (changesOf (s.patches x)) m n) :
    setMemory s.patches m xs = setMemory s.patches n xs := by
  have off : ∀ q : Site, (∀ p ∈ s.patches x, Disjoint q.sources p.changes) →
      Disjoint q.sources (changesOf (s.patches x)) := by
    intro q each
    refine Set.disjoint_left.mpr ?_
    rintro b source ⟨p, member, inside⟩
    exact Set.disjoint_left.mp (each p member) source inside
  -- the memories agree off the bits of the setting until these are replaced
  induction xs generalizing m n with
  | nil =>
    obtain ⟨y, member, _⟩ := again
    cases member
  | cons y ys ih =>
    have step : ∀ m, setMemory s.patches m (y :: ys)
        = setMemory s.patches (applyAll (s.patches y) y.value m) ys := fun _ => rfl
    rw [step, step]
    -- the next setting of the argument is one of scalars, and takes the differences away
    by_cases same : y.arg = x.arg
    · have sites := patches_of_arg s same
      have apart := apart y (by rw [upTo, if_pos same]; exact List.mem_singleton_self y)
      rw [sites] at apart ⊢
      have scalars : ∀ q ∈ s.patches x, q.symbolType = .scalar32bitKind := fun q member =>
        scalar_of_disjoint (patches_runs s x q member) (apart q member q member)
      rw [applyAll_scalars (patches_runs s x) scalars agree]
    · rw [upTo, if_neg same, List.forall_mem_cons] at apart
      refine ih ?_ apart.2 ?_
      · obtain ⟨z, member, equal⟩ := again
        rcases List.mem_cons.mp member with rfl | later
        · exact absurd equal same
        · exact ⟨z, later, equal⟩
      · exact applyAll_agreeOff (patches_runs s y) (fun q member => off q (apart.1 q member)) agree

theorem setMemory_lastSettings (s : Sram) {xs : List Setting} (undisturbed : Undisturbed s xs)
    (m : ByteMem) : setMemory s.patches m xs = setMemory s.patches m (lastSettings xs) := by
  induction xs generalizing m with
  | nil => rfl
  | cons x xs ih =>
    obtain ⟨here, rest⟩ := undisturbed
    have step : ∀ ys, setMemory s.patches m (x :: ys)
        = setMemory s.patches (applyAll (s.patches x) x.value m) ys := fun _ => rfl
    rw [lastSettings]
    split
    · next again =>
      -- an argument that is set again: leaving the setting out changes its own bits only
      rw [step, setMemory_forgets s again (here again) (applyAll_changes (patches_runs s x)), ih rest]
    · rw [step, step, ih rest]

/-- As long as no address is added to bits of a value that is set again, the buffers after any
settings of the arguments are those after the last setting of each. -/
theorem setAll_lastSettings (s : Sram) (xs : List Setting) (undisturbed : Undisturbed s xs) :
    (s.setAll xs).memory = (s.setAll (lastSettings xs)).memory := by
  rw [s.setAll_memory, s.setAll_memory, setMemory_lastSettings s undisturbed]

/-! ### A module with an address and a scalar -/

/-- The address `ifm` is in the words 1 and 2 of the control code, the scalar `size` in the low half
of word 3. -/
def sampleElf : Elf where
  osAbi := elfAmdAie2p
  sections := [⟨[], []⟩, ⟨sectionNameToString .ctrltext, List.replicate 16 0⟩]
  dynsym := [⟨0, 0, 0⟩, ⟨1, 64, 1⟩, ⟨5, 0xFFFF, 1⟩]
  dynstr := 0 :: ascii "ifm" ++ 0 :: ascii "size" ++ [0]
  rela := [⟨0, 0x10A, 5⟩, ⟨12, 0x20A, 3⟩]

def sampleBos : Bos := ⟨0x10000, 0x20000, 0x30000, 0x40000, 0x50000, 0x60000, 0x70000⟩

def sampleSram : Except Error Sram := do
  let parent ← moduleElf sampleElf
  moduleSram parent sampleBos fun _ => 0

def scalarAgain : List Setting :=
  [⟨ascii "size", 1, 7⟩, ⟨ascii "ifm", 0, 0x1000⟩, ⟨ascii "size", 1, 9⟩]

theorem setAll_lastSettings_scalarAgain :
    ∃ s, sampleSram = .ok s ∧ lastSettings scalarAgain = scalarAgain.drop 1
      ∧ (s.setAll scalarAgain).memory = (s.setAll (scalarAgain.drop 1)).memory := by
  refine ⟨_, rfl, by decide, setAll_lastSettings _ scalarAgain ⟨?_, ?_, ?_, trivial⟩⟩
  · -- the address is in other words than the scalar, and the scalar adds to nothing
    rintro - y member q patched p patched'
    obtain rfl : p = ⟨.scalar32bitKind, 0x2000C, 0, 0xFFFF⟩ := List.mem_singleton.mp patched'
    rcases List.mem_cons.mp member with rfl | member
    · obtain rfl : q = ⟨.shimDma48, 0x20000, 0, 0⟩ := List.mem_singleton.mp patched
      exact Set.disjoint_union_left.mpr
        ⟨disjoint_masked ⟨by decide, by decide⟩ _ _, disjoint_masked ⟨by decide, by decide⟩ _ _⟩
    · obtain rfl : y = ⟨ascii "size", 1, 9⟩ := List.mem_singleton.mp member
      obtain rfl : q = ⟨.scalar32bitKind, 0x2000C, 0, 0xFFFF⟩ := List.mem_singleton.mp patched
      exact Set.empty_disjoint _
  · exact fun again => absurd again (by decide)
  · exact fun again => absurd again (by decide)

def addressAgain : List Setting := [⟨ascii "ifm", 0, 0x1000⟩, ⟨ascii "ifm", 0, 0x2000⟩]

/-- The second address is added to the first. -/
theorem address_set_again_adds :
    ∃ s, sampleSram = .ok s ∧ lastSettings addressAgain = [⟨ascii "ifm", 0, 0x2000⟩]
      ∧ read32 (s.setAll (lastSettings addressAgain)).memory 0x20004 = 0x80002000
      ∧ read32 (s.setAll addressAgain).memory 0x20004 = 0x3000
      ∧ (s.setAll addressAgain).memory ≠ (s.setAll (lastSettings addressAgain)).memory := by
  refine ⟨_, rfl, by decide, by decide, by decide, ?_⟩
  intro same
  have word := congrArg (fun m => read32 m 0x20004) same
  revert word
  decide

end Xrt.Aie
