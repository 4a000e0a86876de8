import Mathlib.Logic.Function.Basic
import Xrt.Lib.CStrings
import Xrt.Aie.Patcher

/-!
# Modules from an ELF file

`class module_elf`: the control code is extracted from the sections of the file, and the relocations
of `.rela.dyn` become one patcher for each argument and buffer. The file is taken as the ELF library
returns it. There are two flows, told apart by the OS ABI of the file.
-/
namespace Xrt.Aie

open Lib

/-! ### The file -/

/-- The fields of `Elf32_Sym` that are used. -/
structure Elf32Sym where
  stName : BitVec 32
  stSize : BitVec 32
  stShndx : BitVec 16
deriving DecidableEq, Repr

structure Elf32Rela where
  rOffset : BitVec 32
  rInfo : BitVec 32
  rAddend : BitVec 32
deriving DecidableEq, Repr

structure Section where
  name : Text
  data : List Byte
deriving DecidableEq, Repr

structure Elf where
  osAbi : Nat
  sections : List Section
  /-- the entries of `.dynsym` -/
  dynsym : List Elf32Sym
  /-- the contents of `.dynstr` -/
  dynstr : List Byte
  /-- the entries of the sections with `.rela.dyn` in the name, in the order of the file -/
  rela : List Elf32Rela
deriving DecidableEq, Repr

def elfAmdAie2p : Nat := 69

def elfAmdAie2ps : Nat := 64

def columnPageSize : Nat := 8192

def addendShift : Nat := 4

def addendMask : BitVec 32 := BitVec.allOnes 32 <<< addendShift

def schemaMask : BitVec 32 := ~~~ addendMask

/-! ### Relocations -/

/-- The symbol of a relocation, and its name. -/
def findSymbol (elf : Elf) (rela : Elf32Rela) : Except Error (Elf32Sym × Text) :=
  let symidx := (rela.rInfo >>> 8).toNat
  match elf.dynsym[symidx]? with
  | none => .error (.runtime ("Invalid symbol index " ++ toString symidx))
  | some sym =>
    let dynstrOffset := sym.stName.toNat
    if dynstrOffset ≥ elf.dynstr.length then
      .error (.runtime ("Invalid symbol name offset " ++ toString dynstrOffset))
    else .ok (sym, cString (elf.dynstr.drop dynstrOffset))

def findSection (elf : Elf) (sym : Elf32Sym) : Except Error Section :=
  match elf.sections[sym.stShndx.toNat]? with
  | none => .error (.runtime ("Invalid section index " ++ toString sym.stShndx.toNat))
  | some sec => .ok sec

/-- Where a relocation is to be applied. -/
structure Place where
  argnm : Text
  bufType : BufType
  offset : BitVec 64
  stSize : BitVec 32
deriving DecidableEq, Repr

/-- One place of an argument, and how it is patched. -/
structure Entry where
  argnm : Text
  bufType : BufType
  scheme : SymbolType
  info : PatchInfo
deriving DecidableEq, Repr

/-- The addend of a relocation holds the scheme in its four low bits. The size of the symbol is the
mask of a scalar. -/
def Place.entry (place : Place) (rela : Elf32Rela) : Entry :=
  let patchScheme := SymbolType.cast (rela.rAddend &&& schemaMask)
  { argnm := place.argnm
    bufType := place.bufType
    scheme := patchScheme
    info :=
      { offsetToPatchBuffer := place.offset
        offsetToBaseBoAddr := (rela.rAddend &&& addendMask) >>> addendShift
        mask := if patchScheme = .scalar32bitKind then place.stSize else 0 } }

/-! ### The AIE2P flow -/

/-- The buffers that are extracted from the file. -/
structure Bufs where
  instrBuf : List Byte
  ctrlPacket : Option (List Byte)
  saveBuf : Option (List Byte)
  restoreBuf : Option (List Byte)
deriving DecidableEq, Repr

/-- The first section with the name of the buffer in its name. -/
def initializeBuf (elf : Elf) (type : BufType) : Option (List Byte) :=
  (elf.sections.find? fun sec => contains sec.name (sectionNameToString type)).map Section.data

def determineSectionType (bufs : Bufs) (sectionName : Text) : Except Error (Nat × BufType) :=
  let named (type : BufType) : Prop := sectionName = sectionNameToString type
  if named .ctrltext then .ok (bufs.instrBuf.length, .ctrltext)
  else if bufs.ctrlPacket.isSome ∧ named .ctrldata then
    .ok ((bufs.ctrlPacket.getD []).length, .ctrldata)
  else if bufs.saveBuf.isSome ∧ named .preemptSave then
    .ok ((bufs.saveBuf.getD []).length, .preemptSave)
  else if bufs.restoreBuf.isSome ∧ named .preemptRestore then
    .ok ((bufs.restoreBuf.getD []).length, .preemptRestore)
  else .error (.runtime ("Invalid section name " ++
    String.ofList (sectionName.map fun b => Char.ofNat b.toNat)))

def findPlace (elf : Elf) (bufs : Bufs) (rela : Elf32Rela) : Except Error Place := do
  let (sym, argnm) ← findSymbol elf rela
  let sec ← findSection elf sym
  let (secSize, bufType) ← determineSectionType bufs sec.name
  if rela.rOffset.toNat ≥ secSize then
    .error (.runtime ("Invalid offset " ++ toString rela.rOffset.toNat))
  else .ok ⟨argnm, bufType, rela.rOffset.setWidth 64, sym.stSize⟩

/-- What one turn of the loop of `initialize_arg_patchers` adds. -/
def findEntry (elf : Elf) (bufs : Bufs) (rela : Elf32Rela) : Except Error Entry := do
  let place ← findPlace elf bufs rela
  .ok (place.entry rela)

abbrev Patchers := Text → Option Patcher

/-- A further place of an argument goes to the patcher that is there. -/
def Patchers.add (arg2patchers : Patchers) (entry : Entry) : Patchers :=
  let keyString := generateKeyString entry.argnm entry.bufType
  match arg2patchers keyString with
  | some p => Function.update arg2patchers keyString
      (some { p with ctrlcodePatchinfo := p.ctrlcodePatchinfo ++ [entry.info] })
  | none => Function.update arg2patchers keyString
      (some ⟨entry.bufType, entry.scheme, [entry.info]⟩)

def initializeArgPatchers (elf : Elf) (bufs : Bufs) :
    List Elf32Rela → Patchers → Except Error Patchers
  | [], arg2patchers => .ok arg2patchers
  | rela :: rest, arg2patchers => do
    let entry ← findEntry elf bufs rela
    initializeArgPatchers elf bufs rest (arg2patchers.add entry)

/-! ### The AIE2PS flow -/

/-- `std::stoi` -/
def stoi (text : Text) : Except Error Int :=
  let text := text.dropWhile fun b => b = 0x20 ∨ (0x09 ≤ b ∧ b ≤ 0x0D)
  let negative := text.head? = some 0x2D
  let unsigned := if negative ∨ text.head? = some 0x2B then text.drop 1 else text
  let digits := unsigned.takeWhile fun b => 0x30 ≤ b ∧ b ≤ 0x39
  let number : Nat := digits.foldl (fun n b => 10 * n + (b.toNat - 0x30)) 0
  let value : Int := if negative then -(number : Int) else number
  if digits = [] ∨ value < -2 ^ 31 ∨ 2 ^ 31 ≤ value then .error (.runtime "stoi") else .ok value

/-- `find_first_of(".", pos)` -/
def findDot (name : Text) (pos : Nat) : Option Nat :=
  ((name.drop pos).findIdx? (· = 0x2E)).map (pos + ·)

def getColumnAndPage (name : Text) : Except Error (Nat × Nat) := do
  let firstDot := 9
  let dot1 := findDot name firstDot
  let dot2 := findDot name (firstDot + 1)
  let col ← match dot1 with
    -- the second argument of `substr` is a length
    | some dot => stoi ((name.drop (dot + 1)).take (dot2.getD name.length))
    | none => .ok 0
  let page ← match dot2 with
    | some dot => stoi (name.drop (dot + 1))
    | none => .ok 0
  .ok ((BitVec.ofInt 32 col).toNat, (BitVec.ofInt 32 page).toNat)

structure ColumnPage where
  ctrltext : Option (List Byte)
  ctrldata : Option (List Byte)
deriving DecidableEq, Repr

/-- `map[key] = f(map[key])` in a map with its keys in order. -/
def upsert {β : Type} (key : Nat) (initial : β) (f : β → β) : List (Nat × β) → List (Nat × β)
  | [] => [(key, f initial)]
  | (k, b) :: rest =>
    if key < k then (key, f initial) :: (k, b) :: rest
    else if key = k then (k, f b) :: rest
    else (k, b) :: upsert key initial f rest

abbrev ColumnSections := List (Nat × List (Nat × ColumnPage))

def collectSections : List Section → ColumnSections → Except Error ColumnSections
  | [], colSecs => .ok colSecs
  | sec :: rest, colSecs =>
    if contains sec.name (sectionNameToString .ctrltext) then do
      let (col, page) ← getColumnAndPage sec.name
      collectSections rest (upsert col [] (upsert page ⟨none, none⟩ fun p =>
        { p with ctrltext := some sec.data }) colSecs)
    else if contains sec.name (sectionNameToString .ctrldata) then do
      let (col, page) ← getColumnAndPage sec.name
      collectSections rest (upsert col [] (upsert page ⟨none, none⟩ fun p =>
        { p with ctrldata := some sec.data }) colSecs)
    else collectSections rest colSecs

def padToPage (data : List Byte) (page : Nat) : Except Error (List Byte) :=
  let pad := u32 (page + 1) * columnPageSize
  if data.length > pad then .error (.runtime "Invalid ELF section size")
  else .ok (data ++ List.replicate (pad - data.length) 0)

def columnCtrlcode : List (Nat × ColumnPage) → List Byte → Except Error (List Byte)
  | [], data => .ok data
  | (page, secs) :: rest, data => do
    let padded ← padToPage (data ++ secs.ctrltext.getD [] ++ secs.ctrldata.getD []) page
    columnCtrlcode rest padded

/-- The vector has one element for each column, and is indexed with the numbers of the columns. -/
def initializeColumnCtrlcode (elf : Elf) : Except Error (List (List Byte)) := do
  let colSecs ← collectSections elf.sections []
  colSecs.mapM fun (col, pages) =>
    if col < colSecs.length then columnCtrlcode pages [] else .error .undefined

def findPlaceAie2ps (elf : Elf) (ctrlcodes : List (List Byte)) (rela : Elf32Rela) :
    Except Error Place := do
  let (sym, argnm) ← findSymbol elf rela
  let sec ← findSection elf sym
  let (col, page) ← getColumnAndPage sec.name
  match ctrlcodes[col]? with
  | none => .error (.runtime "vector::_M_range_check")
  | some column =>
    let columnCtrlcodeOffset := page * columnPageSize + rela.rOffset.toNat + 16
    if columnCtrlcodeOffset ≥ column.length then
      .error (.runtime ("Invalid ctrlcode offset " ++ toString columnCtrlcodeOffset))
    else
      let ctrlcodeOffset := ((ctrlcodes.take col).map List.length).sum + columnCtrlcodeOffset
      .ok ⟨argnm, .ctrltext, BitVec.ofNat 64 ctrlcodeOffset, sym.stSize⟩

/-- The whole addend is the scheme. -/
def findEntryAie2ps (elf : Elf) (ctrlcodes : List (List Byte)) (rela : Elf32Rela) :
    Except Error Entry := do
  let place ← findPlaceAie2ps elf ctrlcodes rela
  .ok ⟨place.argnm, place.bufType, SymbolType.cast rela.rAddend, ⟨place.offset, 0, 0⟩⟩

/-- `emplace`: a further place of an argument is dropped. -/
def Patchers.emplace (arg2patcher : Patchers) (entry : Entry) : Patchers :=
  let keyString := generateKeyString entry.argnm entry.bufType
  match arg2patcher keyString with
  | some _ => arg2patcher
  | none => Function.update arg2patcher keyString
      (some ⟨entry.bufType, entry.scheme, [entry.info]⟩)

def initializeArgPatchersAie2ps (elf : Elf) (ctrlcodes : List (List Byte)) :
    List Elf32Rela → Patchers → Except Error Patchers
  | [], arg2patcher => .ok arg2patcher
  | rela :: rest, arg2patcher => do
    let entry ← findEntryAie2ps elf ctrlcodes rela
    initializeArgPatchersAie2ps elf ctrlcodes rest (arg2patcher.emplace entry)

/-! ### The module -/

structure ModuleElf where
  osAbi : Nat
  ctrlcodes : List (List Byte)
  bufs : Bufs
  arg2patcher : Patchers

def noBufs : Bufs := ⟨[], none, none, none⟩

def extractBufs (elf : Elf) : Except Error Bufs :=
  let bufs : Bufs := ⟨(initializeBuf elf .ctrltext).getD [], initializeBuf elf .ctrldata,
    initializeBuf elf .preemptSave, initializeBuf elf .preemptRestore⟩
  if bufs.saveBuf.isSome ≠ bufs.restoreBuf.isSome then
    .error (.runtime "Invalid elf because preempt save and restore is not paired")
  else .ok bufs

def moduleElf (elf : Elf) : Except Error ModuleElf :=
  if elf.osAbi = elfAmdAie2ps then do
    let ctrlcodes ← initializeColumnCtrlcode elf
    let arg2patcher ← initializeArgPatchersAie2ps elf ctrlcodes elf.rela fun _ => none
    .ok ⟨elf.osAbi, ctrlcodes, noBufs, arg2patcher⟩
  else if elf.osAbi = elfAmdAie2p then do
    let bufs ← extractBufs elf
    let arg2patcher ← initializeArgPatchers elf bufs elf.rela fun _ => none
    .ok ⟨elf.osAbi, [], bufs, arg2patcher⟩
  else .ok ⟨elf.osAbi, [], noBufs, fun _ => none⟩

def ModuleElf.find (parent : ModuleElf) (argnm : Text) (index : Nat) (type : BufType) :
    Option Patcher :=
  match parent.arg2patcher (generateKeyString argnm type) with
  | some p => some p
  | none => parent.arg2patcher (generateKeyString (decimal index) type)

def ModuleElf.patch (parent : ModuleElf) (base : BitVec 64) (argnm : Text) (index : Nat)
    (patch : BitVec 64) (type : BufType) (m : ByteMem) : Except Error Bool × ByteMem :=
  match parent.find argnm index type with
  | none => (.ok false, m)
  | some p =>
    match p.patch base patch m with
    | (.ok _, patched) => (.ok true, patched)
    | (.error e, patched) => (.error e, patched)

end Xrt.Aie
