import Xrt.Aie.Module

/-!
# Writing the ELF file

`class elf_writer` of the assembler, as the AIE2 encoders use it: the sections of control code, and
for the symbols of all sections a symbol table, a string table and a relocation table. Scheme and
addend of a symbol share the addend of its relocation; symbols with the same section, name and size
share an entry of the symbol table.
-/
namespace Xrt.Aie

open Lib

inductive PatchSchema
  | ucDmaRemotePtrSymbol
  | shimDma57
  | scaler32
  | controlPacket48
  | shimDma48
  | shimDma57Aie4
  | unknown
deriving DecidableEq, Repr

def PatchSchema.number : PatchSchema → BitVec 32
  | .ucDmaRemotePtrSymbol => 1
  | .shimDma57 => 2
  | .scaler32 => 3
  | .controlPacket48 => 4
  | .shimDma48 => 5
  | .shimDma57Aie4 => 6
  | .unknown => 8

def aiebuAddendShift : Nat := 4

def aiebuAddendMask : BitVec 32 := BitVec.allOnes 32 <<< aiebuAddendShift

def aiebuSchemaMask : BitVec 32 := ~~~ aiebuAddendMask

structure Symbol where
  name : Text
  schema : PatchSchema
  pos : BitVec 32
  addend : BitVec 32
  /-- the mask of a scalar -/
  size : BitVec 64
  sectionName : Text
deriving DecidableEq, Repr

structure Writer where
  name : Text
  data : List Byte
  symbols : List Symbol
deriving DecidableEq, Repr

/-! ### Tables -/

/-- `.dynstr`, `.dynsym` and the map from keys to indices of `.dynsym`. -/
structure DynTables where
  dynstr : List Byte
  dynsym : List Elf32Sym
  hash : Text → Option (BitVec 32)

/-- `string_section_accessor::add_string` of a C string, with the position of the string. -/
def addString (dynstr : List Byte) (str : Text) : BitVec 32 × List Byte :=
  let dynstr := if dynstr.length = 0 then [0] else dynstr
  (BitVec.ofNat 32 dynstr.length, dynstr ++ cString str ++ [0])

/-- `symbol_section_accessor::add_symbol`, with the index of the symbol. The first symbol of a table
is a null symbol. -/
def addSymbol (dynsym : List Elf32Sym) (sym : Elf32Sym) : BitVec 32 × List Elf32Sym :=
  let dynsym := (if dynsym.length = 0 then [⟨0, 0, 0⟩] else dynsym) ++ [sym]
  (BitVec.ofNat 32 (dynsym.length - 1), dynsym)

def symbolKey (sym : Symbol) : Text :=
  sym.sectionName ++ ascii "_" ++ sym.name ++ ascii "_" ++ decimal sym.size.toNat

def sectionIndex (sections : List Section) (name : Text) : Option Nat :=
  sections.findIdx? fun sec => sec.name = name

/-- One turn of the loop of `add_dynsym_section`, with the index that the symbol gets. -/
def addDynsym (sections : List Section) (tables : DynTables) (sym : Symbol) :
    Except Error (BitVec 32 × DynTables) :=
  match tables.hash (symbolKey sym) with
  -- the symbol is in the table under the same key
  | some index => .ok (index, tables)
  | none =>
    match sectionIndex sections sym.sectionName with
    -- the section is looked up and its index used without a check
    | none => .error .undefined
    | some sec =>
      let (position, dynstr) := addString tables.dynstr sym.name
      let (index, dynsym) :=
        addSymbol tables.dynsym ⟨position, sym.size.setWidth 32, BitVec.ofNat 16 sec⟩
      .ok (index, ⟨dynstr, dynsym, Function.update tables.hash (symbolKey sym) (some index)⟩)

def addDynsymSection (sections : List Section) :
    List Symbol → DynTables → Except Error (List (BitVec 32) × DynTables)
  | [], tables => .ok ([], tables)
  | sym :: syms, tables => do
    let (index, tables) ← addDynsym sections tables sym
    let (indices, tables) ← addDynsymSection sections syms tables
    .ok (index :: indices, tables)

/-- `R_X86_64_32` -/
def relocationType : BitVec 32 := 10

/-- One turn of the loop of `add_reldyn_section`. -/
def relaOf (sym : Symbol) (index : BitVec 32) : Elf32Rela where
  rOffset := sym.pos
  rInfo := (index <<< 8) + relocationType
  -- the upper four bits of the addend are shifted out
  rAddend := (sym.schema.number &&& aiebuSchemaMask)
    ||| (sym.addend <<< aiebuAddendShift &&& aiebuAddendMask)

/-! ### The file -/

def addTextDataSection (mwriter : List Writer) : List Section × List Symbol :=
  let buffers := mwriter.filter fun buffer => buffer.data ≠ []
  (buffers.map fun buffer => ⟨buffer.name, buffer.data⟩, buffers.flatMap Writer.symbols)

def unread (name : String) : Section := ⟨ascii name, []⟩

/-- `ob_abi` of `aie2_blob_elf_writer` -/
def obAbi : Nat := 0x45

/-- `elf_writer::process`. The contents of the sections that are written by the library or hold the
tables are not given here. -/
def process (mwriter : List Writer) : Except Error Elf :=
  let (text, syms) := addTextDataSection mwriter
  let sections := [unread "", unread ".shstrtab"] ++ text
  if syms = [] then
    -- without symbols there are no tables
    .ok ⟨obAbi, sections ++ [unread ".note.xrt.UID"], [], [], []⟩
  else do
    let sections := sections ++ [unread ".dynstr", unread ".dynsym"]
    let (indices, tables) ← addDynsymSection sections syms ⟨[], [], fun _ => none⟩
    .ok ⟨obAbi,
      sections ++ [unread ".rela.dyn", unread ".dynamic", unread ".note.xrt.UID"],
      tables.dynsym, tables.dynstr, List.zipWith relaOf syms indices⟩

end Xrt.Aie
