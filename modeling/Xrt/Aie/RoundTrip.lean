import Xrt.Aie.DynTables
import Xrt.Aie.Table

/-!
# From the assembler to the runtime

The relocations that the runtime reads from a file of the assembler are those of the symbols that the
assembler collected. The addend has 28 bits in the file.
-/
namespace Xrt.Aie

open Lib

def sectionOf (mwriter : List Writer) (name : Text) : Option Writer :=
  mwriter.find? fun w => w.data ≠ [] ∧ w.name = name

def collected (mwriter : List Writer) : List Symbol := (addTextDataSection mwriter).2

/-- What the AIE2 encoders hand over: the sections are those of the AIE2P flow, and the symbols are
at places in them. -/
structure Assembled (mwriter : List Writer) : Prop where
  named : ∀ w ∈ mwriter, ∃ t, w.name = sectionNameToString t
  paired : (sectionOf mwriter (sectionNameToString .preemptSave)).isSome
    = (sectionOf mwriter (sectionNameToString .preemptRestore)).isSome
  placed : ∀ sym ∈ collected mwriter, ∃ w, sectionOf mwriter sym.sectionName = some w
    ∧ sym.pos.toNat < w.data.length
  nulFree : ∀ sym ∈ collected mwriter, NulFree sym.name

/-- The numbers of the file fit in the fields of its tables. -/
structure Fits (elf : Elf) : Prop where
  sections : elf.sections.length ≤ 2 ^ 16
  dynsym : elf.dynsym.length ≤ 2 ^ 24
  dynstr : elf.dynstr.length ≤ 2 ^ 32

/-- The runtime's name for a scheme of the assembler. -/
def PatchSchema.symbolType : PatchSchema → SymbolType
  | .ucDmaRemotePtrSymbol => .ucDmaRemotePtrSymbolKind
  | .shimDma57 => .shimDmaBaseAddrSymbolKind
  | .scaler32 => .scalar32bitKind
  | .controlPacket48 => .controlPacket48
  | .shimDma48 => .shimDma48
  | .shimDma57Aie4 => .shimDmaAie4BaseAddrSymbolKind
  | .unknown => .unknownSymbolKind

structure Restores (sym : Symbol) (e : Entry) : Prop where
  argnm : e.argnm = sym.name
  sectionName : sectionNameToString e.bufType = sym.sectionName
  offset : e.info.offsetToPatchBuffer = sym.pos.setWidth 64
  scheme : e.scheme = sym.schema.symbolType
  addend : e.info.offsetToBaseBoAddr = sym.addend &&& 0x0FFFFFFF
  mask : sym.schema = .scaler32 → e.info.mask = sym.size.setWidth 32

/-! ### One relocation -/

theorem toNat_rInfo (sym : Symbol) {i : Nat} (small : i < 2 ^ 24) :
    ((relaOf sym (BitVec.ofNat 32 i)).rInfo >>> 8).toNat = i := by
  have type : relocationType.toNat = 10 := rfl
  simp only [relaOf, type, BitVec.toNat_ushiftRight, BitVec.toNat_add, BitVec.toNat_shiftLeft,
    BitVec.toNat_ofNat, Nat.shiftLeft_eq, Nat.shiftRight_eq_div_pow]
  omega

theorem or_and_masks (x y mask : BitVec 32) :
    (x &&& ~~~ mask ||| y &&& mask) &&& ~~~ mask = x &&& ~~~ mask
      ∧ (x &&& ~~~ mask ||| y &&& mask) &&& mask = y &&& mask := by
  constructor <;>
  · apply BitVec.eq_of_getLsbD_eq
    intro k small
    simp only [BitVec.getLsbD_and, BitVec.getLsbD_or, BitVec.getLsbD_not, small, decide_true,
      Bool.true_and]
    cases mask.getLsbD k <;> simp

theorem scheme_rAddend (sym : Symbol) (index : BitVec 32) :
    SymbolType.cast ((relaOf sym index).rAddend &&& schemaMask) = sym.schema.symbolType := by
  have low : (relaOf sym index).rAddend &&& schemaMask = sym.schema.number &&& schemaMask :=
    (or_and_masks sym.schema.number (sym.addend <<< aiebuAddendShift) addendMask).1
  rw [low]
  cases sym.schema <;> decide

theorem addend_rAddend (sym : Symbol) (index : BitVec 32) :
    ((relaOf sym index).rAddend &&& addendMask) >>> addendShift = sym.addend &&& 0x0FFFFFFF := by
  have high : (relaOf sym index).rAddend &&& addendMask
      = sym.addend <<< aiebuAddendShift &&& addendMask :=
    (or_and_masks sym.schema.number (sym.addend <<< aiebuAddendShift) addendMask).2
  have mask : (0x0FFFFFFF : BitVec 32) = BitVec.allOnes 32 >>> 4 := by decide
  rw [high, mask]
  apply BitVec.eq_of_getLsbD_eq
  intro k small
  simp only [addendMask, addendShift, aiebuAddendShift, BitVec.getLsbD_ushiftRight,
    BitVec.getLsbD_and, BitVec.getLsbD_shiftLeft, BitVec.getLsbD_allOnes]
  by_cases inside : 4 + k < 32
  · simp [inside, small]
  · simp [inside]

variable {t : BufType} {elf : Elf} {bufs : Bufs}

theorem restores_of_place {sym : Symbol} (inT : sym.sectionName = sectionNameToString t)
    (index : BitVec 32) : Restores sym ((Place.mk sym.name t (sym.pos.setWidth 64)
      (sym.size.setWidth 32)).entry (relaOf sym index)) where
  argnm := rfl
  sectionName := inT.symm
  offset := rfl
  scheme := scheme_rAddend sym index
  addend := addend_rAddend sym index
  mask scalar := by
    simp only [Place.entry, scheme_rAddend, scalar]
    rfl

/-! ### Sections -/

variable {mwriter : List Writer}

theorem contains_sectionName (t u : BufType) :
    contains (sectionNameToString u) (sectionNameToString t)
      = decide (sectionNameToString u = sectionNameToString t) := by
  cases t <;> cases u <;> decide

def Unrelated (name : Text) : Prop := ∀ t, contains name (sectionNameToString t) = false

instance (name : Text) : Decidable (Unrelated name) :=
  decidable_of_iff (∀ t ∈ [BufType.ctrltext, .ctrldata, .preemptSave, .preemptRestore],
    contains name (sectionNameToString t) = false)
    ⟨fun all t => all t (by cases t <;> decide), fun all t _ => all t⟩

theorem initializeBuf_written (named : ∀ w ∈ mwriter, ∃ t, w.name = sectionNameToString t)
    {front back : List Section}
    (sections : elf.sections = front ++ (addTextDataSection mwriter).1 ++ back)
    (front' : ∀ sec ∈ front, Unrelated sec.name) (back' : ∀ sec ∈ back, Unrelated sec.name)
    (t : BufType) :
    initializeBuf elf t = (sectionOf mwriter (sectionNameToString t)).map Writer.data := by
  -- the search is for the first section whose name has the one wanted in it
  have none : ∀ xs : List Section, (∀ sec ∈ xs, Unrelated sec.name) →
      (xs.find? fun sec => contains sec.name (sectionNameToString t)) = none := by
    intro xs unrelated
    exact List.find?_eq_none.mpr fun sec member => by simp [unrelated sec member t]
  have same : (mwriter.find? fun w => decide (decide (w.data ≠ []) = true
      ∧ contains w.name (sectionNameToString t) = true)) = sectionOf mwriter (sectionNameToString t) := by
    apply List.find?_congr
    intro w member
    obtain ⟨u, name⟩ := named w member
    rw [name, contains_sectionName]
    simp
  unfold initializeBuf
  rw [sections, List.find?_append, List.find?_append, none front front', none back back',
    Option.none_or, Option.or_none, addTextDataSection, List.find?_map, List.find?_filter,
    Option.map_map]
  exact congrArg (Option.map Writer.data) same

theorem determineSectionType_written (extracted : extractBufs elf = .ok bufs)
    {data : List Byte} (buf : initializeBuf elf t = some data) :
    determineSectionType bufs (sectionNameToString t) = .ok (data.length, t) := by
  unfold extractBufs at extracted
  dsimp only at extracted
  split at extracted
  · cases extracted
  · cases extracted
    have other : ∀ u, u ≠ t → sectionNameToString t ≠ sectionNameToString u := by
      intro u
      cases t <;> cases u <;> decide
    cases t <;> simp [determineSectionType, buf, other]

/-! ### The file -/

theorem findPlace_written {sections : List Section} {tables : DynTables}
    {sym : Symbol} {index : BitVec 32} (fits : Fits elf) (start : sections <+: elf.sections)
    (dynsym : elf.dynsym = tables.dynsym) (dynstr : elf.dynstr = tables.dynstr)
    (describes : Describes sections tables sym index) (extracted : extractBufs elf = .ok bufs)
    {data : List Byte} (inT : sym.sectionName = sectionNameToString t)
    (buf : initializeBuf elf t = some data) (inside : sym.pos.toNat < data.length) :
    findPlace elf bufs (relaOf sym index)
      = .ok ⟨sym.name, t, sym.pos.setWidth 64, sym.size.setWidth 32⟩ := by
  obtain ⟨i, off, sec, rfl, found, entry, within, -, name⟩ := describes
  rw [← dynsym] at entry
  rw [← dynstr] at within name
  -- `r_info` has 24 bits for the symbol, `st_shndx` 16 for the section
  have small : i < 2 ^ 24 :=
    Nat.lt_of_lt_of_le (List.getElem?_eq_some_iff.mp entry).1 fits.dynsym
  have offset : (BitVec.ofNat 32 off).toNat = off := by
    rw [BitVec.toNat_ofNat, Nat.mod_eq_of_lt (Nat.lt_of_lt_of_le within fits.dynstr)]
  obtain ⟨bound, named, -⟩ := List.findIdx?_eq_some_iff_getElem.mp found
  obtain ⟨more, sectionsEq⟩ := start
  have here : elf.sections[sec]? = some sections[sec] := by
    rw [← sectionsEq, List.getElem?_append_left bound, List.getElem?_eq_getElem bound]
  have number : (BitVec.ofNat 16 sec).toNat = sec := by
    rw [BitVec.toNat_ofNat, Nat.mod_eq_of_lt]
    exact Nat.lt_of_lt_of_le (List.getElem?_eq_some_iff.mp here).1 fits.sections
  have sectionName : sections[sec].name = sectionNameToString t :=
    (of_decide_eq_true named).trans inT
  have symbolFound : findSymbol elf (relaOf sym (BitVec.ofNat 32 i))
      = .ok (⟨BitVec.ofNat 32 off, sym.size.setWidth 32, BitVec.ofNat 16 sec⟩, sym.name) := by
    simp only [findSymbol, toNat_rInfo sym small, entry, offset, name]
    rw [if_neg (Nat.not_le.mpr within)]
  have sectionFound : findSection elf ⟨BitVec.ofNat 32 off, sym.size.setWidth 32, BitVec.ofNat 16 sec⟩
      = .ok sections[sec] := by
    simp only [findSection, number, here]
  unfold findPlace
  rw [symbolFound, ok_bind]
  dsimp only
  rw [sectionFound, ok_bind, sectionName, determineSectionType_written extracted buf, ok_bind]
  exact if_neg (Nat.not_le.mpr inside)

/-- What is in a file of the assembler. -/
structure Written (mwriter : List Writer) (elf : Elf) : Prop where
  osAbi : elf.osAbi = elfAmdAie2p
  sections : ∃ front back, elf.sections = front ++ (addTextDataSection mwriter).1 ++ back
    ∧ (∀ sec ∈ front, Unrelated sec.name) ∧ ∀ sec ∈ back, Unrelated sec.name
  tables : ∃ sections tables indices, sections <+: elf.sections ∧ elf.dynsym = tables.dynsym
    ∧ elf.dynstr = tables.dynstr ∧ elf.rela = List.zipWith relaOf (collected mwriter) indices
    ∧ List.Forall₂ (Describes sections tables) (collected mwriter) indices

theorem mem_of_sectionOf {name : Text} {w : Writer} (found : sectionOf mwriter name = some w) :
    w ∈ mwriter ∧ w.data ≠ [] ∧ w.name = name := by
  have here := List.find?_some (p := fun w : Writer => decide (w.data ≠ [] ∧ w.name = name)) found
  exact ⟨List.mem_of_find?_eq_some found, of_decide_eq_true here⟩

section

variable (assembled : Assembled mwriter)
include assembled

theorem Assembled.sectionName {name : Text} {w : Writer}
    (found : sectionOf mwriter name = some w) : ∃ t, name = sectionNameToString t := by
  obtain ⟨member, -, same⟩ := mem_of_sectionOf found
  obtain ⟨t, named⟩ := assembled.named w member
  exact ⟨t, same.symm.trans named⟩

theorem Assembled.writable (front back : List Section) : ∀ sym ∈ collected mwriter,
      Writable (front ++ (addTextDataSection mwriter).1 ++ back) sym := by
  intro sym inside
  obtain ⟨w, found, -⟩ := assembled.placed sym inside
  refine ⟨assembled.sectionName found, ?_, assembled.nulFree sym inside⟩
  obtain ⟨member, data, name⟩ := mem_of_sectionOf found
  apply Option.isSome_iff_exists.mp
  rw [sectionIndex, List.findIdx?_isSome, List.any_eq_true]
  refine ⟨⟨w.name, w.data⟩, ?_, by simpa using name⟩
  apply List.mem_append_left
  apply List.mem_append_right
  exact List.mem_map.mpr ⟨w, List.mem_filter.mpr ⟨member, by simpa using data⟩, rfl⟩

theorem process_written : ∃ elf, process mwriter = .ok elf ∧ Written mwriter elf := by
  have front : ∀ sec ∈ [unread "", unread ".shstrtab"], Unrelated sec.name := by decide
  unfold process
  dsimp only
  split
  · next none =>
    refine ⟨_, rfl, rfl, ⟨_, _, rfl, front, by decide⟩, ?_⟩
    refine ⟨_, ⟨[], [], fun _ => .none⟩, [], List.prefix_rfl, rfl, rfl, ?_, ?_⟩
    · rw [collected, none]
      rfl
    · rw [collected, none]
      exact .nil
  · obtain ⟨indices, tables, made, all, -⟩ := addDynsymSection_spec
      (assembled.writable [unread "", unread ".shstrtab"] [unread ".dynstr", unread ".dynsym"])
      hashOk_empty
    rw [← collected, made, ok_bind]
    refine ⟨_, rfl, rfl, ⟨[unread "", unread ".shstrtab"], [unread ".dynstr", unread ".dynsym"]
      ++ [unread ".rela.dyn", unread ".dynamic", unread ".note.xrt.UID"], ?_, front, by decide⟩,
      _, tables, indices, List.prefix_append _ _, rfl, rfl, rfl, all⟩
    exact List.append_assoc _ _ _

end

theorem places_written {sections : List Section} {tables : DynTables}
    (assembled : Assembled mwriter) (fits : Fits elf) (start : sections <+: elf.sections)
    (dynsym : elf.dynsym = tables.dynsym) (dynstr : elf.dynstr = tables.dynstr)
    (extracted : extractBufs elf = .ok bufs)
    (buf : ∀ t, initializeBuf elf t = (sectionOf mwriter (sectionNameToString t)).map Writer.data)
    {syms : List Symbol} {indices : List (BitVec 32)} (members : ∀ sym ∈ syms, sym ∈ collected mwriter)
    (all : List.Forall₂ (Describes sections tables) syms indices) :
    ∃ places : List (Place × Elf32Rela),
      List.Forall₂ (fun rela x => findPlace elf bufs rela = .ok x.1 ∧ x.2 = rela)
        (List.zipWith relaOf syms indices) places
      ∧ List.Forall₂ Restores syms (places.map fun x => x.1.entry x.2) := by
  induction all with
  | nil => exact ⟨[], .nil, .nil⟩
  | @cons sym index syms indices describes _ ih =>
    rw [List.forall_mem_cons] at members
    obtain ⟨places, found, restored⟩ := ih members.2
    obtain ⟨w, here, inside⟩ := assembled.placed sym members.1
    obtain ⟨t, inT⟩ := assembled.sectionName here
    have data : initializeBuf elf t = some w.data := by
      rw [buf, ← inT, here]
      rfl
    have place := findPlace_written fits start dynsym dynstr describes extracted inT data inside
    exact ⟨(_, relaOf sym index) :: places, .cons ⟨place, rfl⟩ found,
      .cons (restores_of_place inT index) restored⟩

theorem extractBufs_written (assembled : Assembled mwriter)
    (buf : ∀ t, initializeBuf elf t = (sectionOf mwriter (sectionNameToString t)).map Writer.data) :
    ∃ bufs, extractBufs elf = .ok bufs := by
  unfold extractBufs
  simp only [buf, Option.isSome_map]
  rw [assembled.paired, if_neg (not_not.mpr rfl)]
  exact ⟨_, rfl⟩

/-- The runtime accepts the file, and finds the symbols in the order in which they were collected. -/
theorem Written.restores (assembled : Assembled mwriter) (written : Written mwriter elf)
    (fits : Fits elf) : ∃ parent table, moduleElf elf = .ok parent ∧ parent.table elf = .ok table
      ∧ List.Forall₂ Restores (collected mwriter) table := by
  obtain ⟨front, back, layout, front', back'⟩ := written.sections
  have buf := initializeBuf_written assembled.named layout front' back'
  obtain ⟨bufs, extracted⟩ := extractBufs_written assembled buf
  obtain ⟨sections, tables, indices, start, dynsym, dynstr, relas, all⟩ := written.tables
  obtain ⟨places, found, restored⟩ := places_written assembled fits start dynsym dynstr extracted buf
    (fun _ member => member) all
  have read : (elf.rela.mapM fun rela => do
      let place ← findPlace elf bufs rela
      .ok (place, rela)) = .ok places := by
    rw [mapM_eq_ok_iff, relas]
    refine found.imp ?_
    rintro rela ⟨place, _⟩ ⟨ok, rfl⟩
    rw [ok, ok_bind]
  obtain ⟨arg2patcher, patchers⟩ :
      ∃ arg2patcher, initializeArgPatchers elf bufs elf.rela (fun _ => none) = .ok arg2patcher :=
    ⟨_, initializeArgPatchers_ok_iff.mpr ⟨places, read, rfl⟩⟩
  have aie2p : ¬ elf.osAbi = elfAmdAie2ps := by
    rw [written.osAbi]
    decide
  refine ⟨⟨elf.osAbi, [], bufs, arg2patcher⟩, _, ?_, ?_, restored⟩
  · rw [moduleElf, if_neg aie2p, if_pos written.osAbi, extracted, ok_bind, patchers, ok_bind]
  · simp only [ModuleElf.table, ModuleElf.places, if_neg aie2p]
    rw [read, ok_bind]

/-- The runtime reconstructs the symbols of the assembler one by one: name, section, offset, scheme,
the low 28 bits of the addend and, for scalars, the mask. -/
theorem process_round_trip (mwriter : List Writer) (assembled : Assembled mwriter) :
    ∃ elf, process mwriter = .ok elf ∧ (Fits elf → ∃ parent table, moduleElf elf = .ok parent
      ∧ parent.table elf = .ok table ∧ List.Forall₂ Restores (collected mwriter) table) := by
  obtain ⟨elf, made, written⟩ := process_written assembled
  exact ⟨elf, made, written.restores assembled⟩

/-- Control code with an address at its start and a scalar behind it. -/
def sampleWriter (addend : BitVec 32) : Writer where
  name := sectionNameToString .ctrltext
  data := List.replicate 16 0
  symbols :=
    [⟨ascii "3", .shimDma48, 0, addend, 64, sectionNameToString .ctrltext⟩,
      ⟨ascii "4", .scaler32, 12, 0, 0xFFFF, sectionNameToString .ctrltext⟩]

theorem assembled_sample (addend : BitVec 32) : Assembled [sampleWriter addend] where
  named := List.forall_mem_singleton.mpr ⟨.ctrltext, rfl⟩
  paired := by
    have noSave : sectionOf [sampleWriter addend] (sectionNameToString .preemptSave) = none := rfl
    have noRestore : sectionOf [sampleWriter addend] (sectionNameToString .preemptRestore) = none := rfl
    rw [noSave, noRestore]
  placed := by
    rw [show collected [sampleWriter addend] = (sampleWriter addend).symbols from rfl]
    simp only [sampleWriter, List.forall_mem_cons]
    exact ⟨⟨sampleWriter addend, rfl, by simp [sampleWriter]⟩,
      ⟨sampleWriter addend, rfl, by simp [sampleWriter]⟩, by simp⟩
  nulFree := by
    rw [show collected [sampleWriter addend] = (sampleWriter addend).symbols from rfl]
    simp only [sampleWriter, List.forall_mem_cons, NulFree]
    exact ⟨by decide, by decide, by simp⟩

theorem process_round_trip_sample :
    ∃ elf parent table, process [sampleWriter 0x1000] = .ok elf ∧ moduleElf elf = .ok parent
      ∧ parent.table elf = .ok table
      ∧ List.Forall₂ Restores (collected [sampleWriter 0x1000]) table := by
  obtain ⟨elf, made, rest⟩ := process_round_trip _ (assembled_sample 0x1000)
  have fits : Fits elf := by
    obtain rfl : _ = elf := Except.ok.inj made
    exact ⟨by decide, by decide, by decide⟩
  obtain ⟨parent, table, accepted, read, restored⟩ := rest fits
  exact ⟨elf, parent, table, made, accepted, read, restored⟩

/-- An addend of 256 MiB needs a bit that the file does not have. -/
theorem large_addend_lost :
    ∃ elf parent table, process [sampleWriter 0x10000000] = .ok elf ∧ Fits elf
      ∧ moduleElf elf = .ok parent ∧ parent.table elf = .ok table
      ∧ (collected [sampleWriter 0x10000000]).map Symbol.addend = [0x10000000, 0]
      ∧ table.map (fun e => e.info.offsetToBaseBoAddr) = [0, 0] :=
  ⟨_, _, _, rfl, ⟨by decide, by decide, by decide⟩, rfl, rfl, rfl, rfl⟩

end Xrt.Aie
