import Xrt.Aie.PatchEffect
import Xrt.Aie.Table

/-!
# Which words a patch reads and writes

The offset of a relocation is compared with the size of the buffer when the table is read, but a
patch goes up to nine words on from there. It stays in the buffer exactly if the last of these words
does.
-/
namespace Xrt.Aie

open Lib

/-- The words at which a patch of this type looks, counted from the place. -/
def SymbolType.words (mask : BitVec 32) : SymbolType → List Nat
  | .scalar32bitKind => if mask ≠ 0 then [0] else []
  | .shimDmaBaseAddrSymbolKind => [8, 2, 1]
  | .shimDmaAie4BaseAddrSymbolKind => [0, 1]
  | .controlPacket48 => [3, 2]
  | .shimDma48 => [2, 1]
  | _ => []

/-- Every bit that a patch depends on or changes lies in these words. -/
theorem Site.touches_words (site : Site) {b : Bit} (touched : b ∈ site.sources ∪ site.changes) :
    ∃ i ∈ site.symbolType.words site.mask, b.1 ∈ region (wordAt site.ptr i) 4 := by
  cases type : site.symbolType with
  | scalar32bitKind =>
    simp only [sources, changes, type, Set.empty_union] at touched
    have some : site.mask ≠ 0 := by
      intro zero
      obtain ⟨k, set, -⟩ := touched
      simp [zero] at set
    refine ⟨0, ?_, ?_⟩
    · rw [SymbolType.words, if_pos some]
      exact List.mem_singleton_self 0
    · rw [wordAt_zero]
      exact mem_region_of_masked touched
  | ucDmaRemotePtrSymbolKind => simp [sources, changes, type] at touched
  | unknownSymbolKind => simp [sources, changes, type] at touched
  | other value => simp [sources, changes, type] at touched
  | _ =>
    -- an address: the masks of its pieces are in different words
    simp only [sources, changes, type, bits57, bits57Aie4, bits48, words48, Set.mem_union] at touched
    simp only [SymbolType.words, List.mem_cons, List.not_mem_nil, or_false, exists_eq_or_imp,
      exists_eq_left]
    have word := @mem_region_of_masked
    grind

/-- The places that are patched; the loop ends with the first that throws. -/
def Patcher.reached (p : Patcher) (base : BitVec 64) : List PatchInfo :=
  p.ctrlcodePatchinfo.takeWhile fun item => (p.site base item).runs

/-- Every word of the patch lies in a buffer of this size. -/
def Patcher.Inside (p : Patcher) (base : BitVec 64) (size : Nat) : Prop :=
  ∀ item ∈ p.reached base, ∀ i ∈ p.symbolType.words item.mask,
    item.offsetToPatchBuffer.toNat + 4 * i + 4 ≤ size

instance (p : Patcher) (base : BitVec 64) (size : Nat) : Decidable (p.Inside base size) :=
  inferInstanceAs (Decidable (∀ item ∈ _, ∀ i ∈ _, _ ≤ _))

/-- A patch whose words lie in the buffer neither looks at a byte behind it nor changes one, also when
it throws. -/
theorem Patcher.patch_confined (p : Patcher) (base newValue : BitVec 64) {size : Nat}
    (fits : size ≤ 2 ^ 64) (inside : p.Inside base size) :
    Confined (region base size) fun m => (p.patch base newValue m).2 := by
  simp only [Patcher.patch, patchSites_snd, List.takeWhile_map]
  refine Confined.foldl fun x listed => ?_
  obtain ⟨item, reached, rfl⟩ := List.mem_map.mp listed
  have runs : (p.site base item).runs = true := by simpa using List.mem_takeWhile_imp reached
  refine (Site.acts _ runs newValue).confined fun b touched => ?_
  obtain ⟨i, used, near⟩ := Site.touches_words _ touched
  have room := inside item reached i used
  have place : wordAt (p.site base item).ptr i
      = base + BitVec.ofNat 64 (item.offsetToPatchBuffer.toNat + 4 * i) := by
    simp [wordAt, Patcher.site, BitVec.ofNat_add, BitVec.add_assoc]
  rw [place, mem_region_add (by omega)] at near
  exact near.2.trans_le room

theorem patch_confined_descriptor :
    Confined (region 0x1000 36) fun m =>
      ((⟨.ctrltext, .shimDmaBaseAddrSymbolKind, [⟨0, 0, 0⟩]⟩ : Patcher).patch 0x1000 8 m).2 :=
  Patcher.patch_confined _ _ _ (by decide) (by decide)

/-- The size of the buffer that is patched; the control code of all columns is one. -/
def ModuleElf.bufSize (parent : ModuleElf) (type : BufType) : Nat :=
  if parent.osAbi = elfAmdAie2ps then (parent.ctrlcodes.map List.length).sum
  else match type with
    | .ctrltext => parent.bufs.instrBuf.length
    | .ctrldata => (parent.bufs.ctrlPacket.getD []).length
    | .preemptSave => (parent.bufs.saveBuf.getD []).length
    | .preemptRestore => (parent.bufs.restoreBuf.getD []).length

/-- The bytes from a place to the end of the last word. -/
def SymbolType.reach (mask : BitVec 32) : SymbolType → Nat
  | .scalar32bitKind => if mask ≠ 0 then 4 else 0
  | .shimDmaBaseAddrSymbolKind => 36
  | .shimDmaAie4BaseAddrSymbolKind => 8
  | .controlPacket48 => 16
  | .shimDma48 => 12
  | _ => 0

/-- There is room for all words at every place that is reached. -/
def Patcher.Room (p : Patcher) (base : BitVec 64) (size : Nat) : Prop :=
  ∀ item ∈ p.reached base, p.symbolType.reach item.mask ≠ 0 →
    item.offsetToPatchBuffer.toNat + p.symbolType.reach item.mask ≤ size

instance (p : Patcher) (base : BitVec 64) (size : Nat) : Decidable (p.Room base size) :=
  inferInstanceAs (Decidable (∀ item ∈ _, _ → _ ≤ _))

theorem words_fit_iff (type : SymbolType) (mask : BitVec 32) (offset size : Nat) :
    (∀ i ∈ type.words mask, offset + 4 * i + 4 ≤ size)
      ↔ (type.reach mask ≠ 0 → offset + type.reach mask ≤ size) := by
  cases type with
  | scalar32bitKind =>
    rw [SymbolType.words, SymbolType.reach]
    split <;> simp
  | ucDmaRemotePtrSymbolKind => simp [SymbolType.words, SymbolType.reach]
  | unknownSymbolKind => simp [SymbolType.words, SymbolType.reach]
  | other value => simp [SymbolType.words, SymbolType.reach]
  | _ =>
    simp only [SymbolType.words, SymbolType.reach, List.mem_cons, List.not_mem_nil, or_false,
      forall_eq_or_imp, forall_eq]
    omega

theorem Patcher.inside_iff_room (p : Patcher) (base : BitVec 64) (size : Nat) :
    p.Inside base size ↔ p.Room base size :=
  forall₂_congr fun item _ => words_fit_iff p.symbolType item.mask _ size

/-! ### The patchers of a file -/

/-- The relocations from which the patcher of an argument is made. -/
def patchedEntries (elf : Elf) (places : List (Place × Elf32Rela)) (argnm : Text) (type : BufType) :
    List Entry :=
  if elf.osAbi = elfAmdAie2ps then ((placesOf places argnm type).take 1).map entryAie2ps
  else entriesOf (places.map fun x => x.1.entry x.2) argnm type

/-- All relocations of an argument have the scheme of the first. -/
def patcherOf (type : BufType) : List Entry → Option Patcher
  | [] => none
  | first :: rest => some ⟨type, first.scheme, (first :: rest).map Entry.info⟩

variable {elf : Elf} {parent : ModuleElf} {places : List (Place × Elf32Rela)}

theorem Made.arg2patcher_eq (made : Made elf parent places) (argnm : Text) (type : BufType) :
    parent.arg2patcher (generateKeyString argnm type)
      = patcherOf type (patchedEntries elf places argnm type) := by
  unfold Made at made
  unfold patchedEntries
  by_cases aie2ps : elf.osAbi = elfAmdAie2ps
  · rw [if_pos aie2ps] at made ⊢
    have filtered : entriesOf (places.map entryAie2ps) argnm type
        = (placesOf places argnm type).map entryAie2ps := List.filter_map
    rw [made.1, foldl_emplace, filtered]
    cases found : placesOf places argnm type with
    | nil => rfl
    | cons x rest =>
      have here : x.1.bufType = type := by
        have member : x ∈ placesOf places argnm type := found ▸ List.mem_cons_self
        simp only [placesOf, List.mem_filter, decide_eq_true_eq] at member
        exact member.2.2
      simp [patcherOf, entryAie2ps, here]
  · rw [if_neg aie2ps] at made ⊢
    rw [made, foldl_add]
    cases found : entriesOf (places.map fun x => x.1.entry x.2) argnm type with
    | nil => rfl
    | cons first rest =>
      have member : first ∈ entriesOf (places.map fun x => x.1.entry x.2) argnm type :=
        found ▸ List.mem_cons_self
      have here := (mem_entriesOf.mp member).2.2
      simp [extend, patcherOf, here]

/-- The control code of a module that has no flow is not patched. -/
theorem moduleElf_other (other : ¬ (elf.osAbi = elfAmdAie2p ∨ elf.osAbi = elfAmdAie2ps))
    (accepted : moduleElf elf = .ok parent) (key : Text) : parent.arg2patcher key = none := by
  rw [not_or] at other
  rw [moduleElf, if_neg other.2, if_neg other.1] at accepted
  cases accepted
  rfl

/-- Arguments are found by their name or by their index. -/
theorem forall_find_iff {P : BufType → Patcher → Prop} :
    (∀ argnm index type p, parent.find argnm index type = some p → P type p)
      ↔ ∀ argnm type p, parent.arg2patcher (generateKeyString argnm type) = some p → P type p := by
  constructor
  · intro all argnm type p found
    refine all argnm 0 type p ?_
    rw [ModuleElf.find, found]
  · intro all argnm index type p found
    unfold ModuleElf.find at found
    split at found
    next q named =>
      cases found
      exact all argnm type p named
    · exact all (decimal index) type p found

/-- All patches stay in their buffers exactly if every relocation that is applied leaves room behind
its offset for the words of the scheme it is applied with. -/
theorem patches_inside_iff (elf : Elf) (parent : ModuleElf) (base : BitVec 64)
    (accepted : moduleElf elf = .ok parent) :
    (∀ argnm index type p, parent.find argnm index type = some p →
        p.Inside base (parent.bufSize type))
      ↔ (elf.osAbi = elfAmdAie2p ∨ elf.osAbi = elfAmdAie2ps →
        ∀ places, parent.places elf = .ok places → ∀ argnm type p,
          patcherOf type (patchedEntries elf places argnm type) = some p →
            p.Room base (parent.bufSize type)) := by
  simp only [Patcher.inside_iff_room]
  rw [forall_find_iff]
  by_cases flow : elf.osAbi = elfAmdAie2p ∨ elf.osAbi = elfAmdAie2ps
  · obtain ⟨places, placesOk, made⟩ := moduleElf_made flow accepted
    simp only [flow, true_imp_iff, placesOk, Except.ok.injEq, forall_eq', made.arg2patcher_eq]
  · refine iff_of_true (fun argnm type p found => ?_) fun some => absurd some flow
    rw [moduleElf_other flow accepted] at found
    cases found

/-- Control code of 32 bytes, and an address of argument 3 at an offset. -/
def oneAddressElf (offset : BitVec 32) : Elf where
  osAbi := elfAmdAie2p
  sections := [⟨[], []⟩, ⟨sectionNameToString .ctrltext, List.replicate 32 0⟩]
  dynsym := [⟨0, 0, 0⟩, ⟨1, 0, 1⟩]
  dynstr := 0 :: ascii "3" ++ [0]
  rela := [⟨offset, 0x10A, 5⟩]

theorem patches_inside_address :
    ∃ parent, moduleElf (oneAddressElf 16) = .ok parent
      ∧ ∀ argnm index type p, parent.find argnm index type = some p →
        p.Inside 0x1000 (parent.bufSize type) := by
  refine ⟨_, rfl, (patches_inside_iff (oneAddressElf 16) _ 0x1000 rfl).mpr ?_⟩
  intro _ places ok argnm type p found
  cases ok
  have none : entriesOf [] argnm type = [] := rfl
  unfold patchedEntries at found
  rw [if_neg (by decide), List.reverse_singleton, List.map_singleton, entriesOf_cons, none] at found
  -- the only relocation is one of the control code
  split at found
  next here =>
    cases found
    obtain ⟨-, rfl⟩ := here
    decide
  · cases found

/-- The address is in the last word of the control code, and the patch changes the two words behind
it. -/
theorem patch_behind_ctrltext :
    ∃ parent p, moduleElf (oneAddressElf 28) = .ok parent
      ∧ parent.find (ascii "3") 0 .ctrltext = some p ∧ parent.bufSize .ctrltext = 32
      ∧ p.reached 0x1000 = [⟨28, 0, 0⟩] ∧ p.symbolType.words 0 = [2, 1] ∧ ¬ p.Inside 0x1000 32 :=
  ⟨_, _, rfl, rfl, rfl, rfl, rfl, by decide⟩

end Xrt.Aie
