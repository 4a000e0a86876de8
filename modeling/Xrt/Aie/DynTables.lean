import Xrt.Lib.Run
import Xrt.Aie.ElfWriter

/-!
# What the tables of the file say about a symbol

The entry of the symbol table that a symbol gets has its name, section and size, and keeps them while
further symbols are added. Symbols that share an entry have the same section, name and size, since
the key of a symbol tells these apart.
-/
namespace Xrt.Aie

open Lib

/-! ### Keys -/

theorem sectionName_of_key {t u : BufType} {n k : Text}
    (same : sectionNameToString t ++ 0x5F :: n = sectionNameToString u ++ 0x5F :: k) : t = u := by
  have start : ∀ (t : BufType) (n : Text),
      (sectionNameToString t ++ 0x5F :: n).take 10 = (sectionNameToString t ++ [0x5F]).take 10 := by
    intro t n
    have long : 10 ≤ (sectionNameToString t ++ [0x5F]).length := by cases t <;> decide
    rw [List.append_cons, List.take_append_of_le_length long]
  -- ten characters, the separator among them, tell the four names apart
  have starts := congrArg (List.take 10) same
  rw [start t n, start u k] at starts
  revert starts
  cases t <;> cases u <;> decide

theorem symbolKey_eq (sym : Symbol) : symbolKey sym
    = (sym.sectionName ++ 0x5F :: sym.name) ++ 0x5F :: decimal sym.size.toNat := by
  have separator : ascii "_" = [0x5F] := by decide
  simp [symbolKey, separator]

theorem separator_notMem_decimal (n : Nat) : (0x5F : Byte) ∉ decimal n := by
  intro member
  obtain ⟨d, small, same⟩ := mem_decimal member
  revert same
  interval_cases d <;> decide

theorem symbolKey_inj {x y : Symbol} {t u : BufType} (inT : x.sectionName = sectionNameToString t)
    (inU : y.sectionName = sectionNameToString u) (same : symbolKey x = symbolKey y) :
    x.sectionName = y.sectionName ∧ x.name = y.name ∧ x.size = y.size := by
  rw [symbolKey_eq, symbolKey_eq] at same
  -- the last separator is the one before the size: digits have none
  obtain ⟨fronts, sizes⟩ := append_cons_inj_of_notMem (separator_notMem_decimal _)
    (separator_notMem_decimal _) same
  rw [inT, inU] at fronts
  obtain rfl := sectionName_of_key fronts
  have names := (List.cons.inj (List.append_cancel_left fronts)).2
  exact ⟨inT.trans inU.symm, names, BitVec.eq_of_toNat_eq (decimal_inj sizes)⟩

/-! ### Entries -/

def Describes (sections : List Section) (tables : DynTables) (sym : Symbol) (index : BitVec 32) :
    Prop :=
  ∃ i off sec, index = BitVec.ofNat 32 i ∧ sectionIndex sections sym.sectionName = some sec
    ∧ tables.dynsym[i]? = some ⟨BitVec.ofNat 32 off, sym.size.setWidth 32, BitVec.ofNat 16 sec⟩
    ∧ off < tables.dynstr.length ∧ 0 ∈ tables.dynstr.drop off
    ∧ cString (tables.dynstr.drop off) = sym.name

/-- Further strings and symbols come behind those that are there. -/
def Extends (tables later : DynTables) : Prop :=
  tables.dynstr <+: later.dynstr ∧ tables.dynsym <+: later.dynsym

variable {sections : List Section} {tables later : DynTables} {sym : Symbol} {index : BitVec 32}

theorem Extends.trans {last : DynTables} (first : Extends tables later) (second : Extends later last) :
    Extends tables last := ⟨first.1.trans second.1, first.2.trans second.2⟩

theorem Describes.mono (describes : Describes sections tables sym index)
    (more : Extends tables later) : Describes sections later sym index := by
  obtain ⟨i, off, sec, rfl, found, entry, inside, ended, name⟩ := describes
  obtain ⟨⟨strings, moreStrings⟩, ⟨syms, moreSyms⟩⟩ := more
  have within : i < tables.dynsym.length := (List.getElem?_eq_some_iff.mp entry).1
  refine ⟨i, off, sec, rfl, found, ?_, ?_, ?_, ?_⟩
  · rw [← moreSyms, List.getElem?_append_left within, entry]
  · rw [← moreStrings, List.length_append]
    omega
  · rw [← moreStrings, List.drop_append_of_le_length (Nat.le_of_lt inside)]
    exact List.mem_append_left strings ended
  · rw [← moreStrings, List.drop_append_of_le_length (Nat.le_of_lt inside),
      cString_append_of_mem ended, name]

/-- The symbol can be written: it is in a section of the file, and its name has no NUL. -/
structure Writable (sections : List Section) (sym : Symbol) : Prop where
  named : ∃ t, sym.sectionName = sectionNameToString t
  present : ∃ sec, sectionIndex sections sym.sectionName = some sec
  nulFree : NulFree sym.name

/-- Every key leads to an entry that describes all symbols with the key. -/
def HashOk (sections : List Section) (tables : DynTables) : Prop :=
  ∀ sym index, (∃ t, sym.sectionName = sectionNameToString t) →
    tables.hash (symbolKey sym) = some index → Describes sections tables sym index

theorem hashOk_empty : HashOk sections ⟨[], [], fun _ => none⟩ := by
  intro sym index _ found
  cases found

theorem addString_spec (dynstr : List Byte) {str : Text} (nulFree : NulFree str) :
    ∃ off later, addString dynstr str = (BitVec.ofNat 32 off, later) ∧ off < later.length
      ∧ 0 ∈ later.drop off ∧ cString (later.drop off) = str ∧ dynstr <+: later := by
  have whole : cString str = str := cString_eq_iff.mpr nulFree
  have grown : dynstr <+: if dynstr.length = 0 then [0] else dynstr := by
    split
    · next empty =>
      rw [List.eq_nil_of_length_eq_zero empty]
      exact List.nil_prefix
    · exact List.prefix_rfl
  unfold addString
  dsimp only
  -- the first string is put behind the NUL of index 0
  generalize (if dynstr.length = 0 then [0] else dynstr) = front at grown
  refine ⟨front.length, _, rfl, ?_, ?_, ?_, ?_⟩
  · rw [List.length_append, List.length_append, List.length_singleton]
    omega
  · simp
  · rw [List.append_assoc, List.drop_left, whole]
    exact cString_append nulFree []
  · rw [List.append_assoc]
    exact grown.trans (List.prefix_append _ _)

theorem addSymbol_spec (dynsym : List Elf32Sym) (sym : Elf32Sym) :
    ∃ i later, addSymbol dynsym sym = (BitVec.ofNat 32 i, later) ∧ later[i]? = some sym
      ∧ dynsym <+: later := by
  unfold addSymbol
  refine ⟨_, _, rfl, ?_, ?_⟩
  · rw [List.length_append, List.length_singleton, Nat.add_sub_cancel]
    exact List.getElem?_concat_length
  · split
    · next empty =>
      rw [List.eq_nil_of_length_eq_zero empty]
      exact List.nil_prefix
    · exact List.prefix_append _ _

theorem addDynsym_new (writable : Writable sections sym)
    (new : tables.hash (symbolKey sym) = none) :
    ∃ index later, addDynsym sections tables sym = .ok (index, later)
      ∧ Describes sections later sym index ∧ Extends tables later
      ∧ later.hash = Function.update tables.hash (symbolKey sym) (some index) := by
  obtain ⟨sec, found⟩ := writable.present
  obtain ⟨off, dynstr, added, inside, ended, name, strings⟩ :=
    addString_spec tables.dynstr writable.nulFree
  obtain ⟨i, dynsym, appended, entry, syms⟩ := addSymbol_spec tables.dynsym
    ⟨BitVec.ofNat 32 off, sym.size.setWidth 32, BitVec.ofNat 16 sec⟩
  refine ⟨BitVec.ofNat 32 i, ⟨dynstr, dynsym,
    Function.update tables.hash (symbolKey sym) (some (BitVec.ofNat 32 i))⟩, ?_,
    ⟨i, off, sec, rfl, found, entry, inside, ended, name⟩, ⟨strings, syms⟩, rfl⟩
  simp only [addDynsym, new, found, added, appended]

/-- The loop body: the symbol is described, and the symbols before it stay so. -/
theorem addDynsym_spec (writable : Writable sections sym) (hashOk : HashOk sections tables) :
    ∃ index later, addDynsym sections tables sym = .ok (index, later)
      ∧ Describes sections later sym index ∧ Extends tables later ∧ HashOk sections later := by
  cases known : tables.hash (symbolKey sym) with
  | some index =>
    refine ⟨index, tables, ?_, hashOk sym index writable.named known,
      ⟨List.prefix_rfl, List.prefix_rfl⟩, hashOk⟩
    rw [addDynsym, known]
  | none =>
    obtain ⟨index, later, added, describes, more, hash⟩ := addDynsym_new writable known
    refine ⟨index, later, added, describes, more, ?_⟩
    intro other otherIndex named found
    rw [hash] at found
    by_cases same : symbolKey other = symbolKey sym
    · -- a symbol with the same key has the same entry
      obtain ⟨t, inT⟩ := named
      obtain ⟨u, inU⟩ := writable.named
      obtain ⟨sections, names, sizes⟩ := symbolKey_inj inT inU same
      rw [same, Function.update_self] at found
      cases found
      unfold Describes
      rw [sections, names, sizes]
      exact describes
    · rw [Function.update_of_ne same] at found
      exact (hashOk other otherIndex named found).mono more

theorem addDynsymSection_spec {syms : List Symbol} (writable : ∀ sym ∈ syms, Writable sections sym)
    (hashOk : HashOk sections tables) :
    ∃ indices later, addDynsymSection sections syms tables = .ok (indices, later)
      ∧ List.Forall₂ (Describes sections later) syms indices ∧ Extends tables later := by
  induction syms generalizing tables with
  | nil => exact ⟨[], tables, rfl, .nil, List.prefix_rfl, List.prefix_rfl⟩
  | cons sym syms ih =>
    rw [List.forall_mem_cons] at writable
    -- what describes a symbol stays while the others are added
    obtain ⟨index, next, added, describes, more, hashOk⟩ := addDynsym_spec writable.1 hashOk
    obtain ⟨indices, later, rest, all, evenMore⟩ := ih writable.2 hashOk
    refine ⟨index :: indices, later, ?_, .cons (describes.mono evenMore) all, more.trans evenMore⟩
    rw [addDynsymSection, added, ok_bind]
    dsimp only
    rw [rest]
    rfl

end Xrt.Aie
