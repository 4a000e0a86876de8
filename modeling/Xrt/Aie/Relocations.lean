import Xrt.Lib.Reorder
import Xrt.Aie.Sram
import Xrt.Aie.Table

/-!
# Patching every argument once

Patching the arguments of a module one after the other is compared with applying the relocations of
the table one after the other. An argument is known in a buffer by its name or by its index.
-/
namespace Xrt.Aie

open Lib

/-- The name and the index of an argument. -/
abbrev Arg := Text × Nat

/-- The arguments are patched in a buffer, up to the first exception. -/
def ModuleElf.patchArgs (parent : ModuleElf) (base : BitVec 64) (type : BufType)
    (value : Arg → BitVec 64) : List Arg → ByteMem → Except Error Unit × ByteMem
  | [], m => (.ok (), m)
  | a :: args, m =>
    match parent.patch base a.1 a.2 (value a) type m with
    | (.ok _, patched) => parent.patchArgs base type value args patched
    | (.error e, patched) => (.error e, patched)

def Entry.site (base : BitVec 64) (e : Entry) : Site where
  symbolType := e.scheme
  ptr := base + e.info.offsetToPatchBuffer
  offsetToBaseBoAddr := e.info.offsetToBaseBoAddr
  mask := e.info.mask

variable (table : List Entry)

def symbolOf (type : BufType) (a : Arg) : Option Text :=
  if entriesOf table a.1 type ≠ [] then some a.1
  else if entriesOf table (decimal a.2) type ≠ [] then some (decimal a.2)
  else none

def symbols (type : BufType) (args : List Arg) : List Text :=
  args.filterMap (symbolOf table type)

/-- Every symbol of the buffer stands for exactly one of the arguments. -/
structure Once (table : List Entry) (type : BufType) (args : List Arg) : Prop where
  nodup : (symbols table type args).Nodup
  all : ∀ e ∈ table, e.bufType = type → e.argnm ∈ symbols table type args

def valueOf (type : BufType) (args : List Arg) (value : Arg → BitVec 64)
    (symbol : Text) : BitVec 64 :=
  match args.find? fun a => symbolOf table type a = some symbol with
  | some a => value a
  | none => 0

def applyEntry (type : BufType) (base : BitVec 64) (args : List Arg)
    (value : Arg → BitVec 64) (e : Entry) : Site × BitVec 64 :=
  (e.site base, valueOf table type args value e.argnm)

def tableOf (type : BufType) : List Entry :=
  table.filter fun e => e.bufType = type

/-- Every relocation of the buffer is applied, in the order of the table. -/
def applyTable (type : BufType) (base : BitVec 64) (args : List Arg)
    (value : Arg → BitVec 64) : ByteMem → Except Error Unit × ByteMem :=
  patchSites ((tableOf table type).map (applyEntry table type base args value))

/-- Of two relocations that do not commute, the first in the table is of the argument that is patched
first. -/
def KeepsOrder (type : BufType) (base : BitVec 64) (args : List Arg)
    (value : Arg → BitVec 64) : Prop :=
  (tableOf table type).Pairwise fun e f =>
    Commutes (fun m e => applySite m (applyEntry table type base args value e)) e f
      ∨ (symbols table type args).idxOf e.argnm ≤ (symbols table type args).idxOf f.argnm

/-! ### Arguments and symbols -/

variable {elf : Elf} {parent : ModuleElf} {table : List Entry} {type : BufType} {base : BitVec 64}
  {args : List Arg} {value : Arg → BitVec 64}

theorem patchArgs_eq (parent : ModuleElf) (base : BitVec 64) (type : BufType)
    (value : Arg → BitVec 64) (args : List Arg) (m : ByteMem) :
    parent.patchArgs base type value args m = patchSites (args.flatMap fun a =>
      (parent.sites base a.1 a.2 type).map (·, value a)) m := by
  induction args generalizing m with
  | nil => rfl
  | cons a args ih =>
    rw [ModuleElf.patchArgs, List.flatMap_cons]
    -- an exception ends both lists at the same site
    rcases parent.patch_cases base a.1 a.2 (value a) type m with
      ⟨found, m', patched, sites⟩ | ⟨e, m', patched, sites⟩
    · rw [patchSites_append_of_ok sites, patched]
      exact ih m'
    · rw [patchSites_append_of_error sites, patched]

theorem sites_eq {places : List (Place × Elf32Rela)} (made : Made elf parent places)
    (applied : ∀ argnm type, parent.applied argnm type = own table argnm type) (a : Arg) :
    parent.sites base a.1 a.2 type = match symbolOf table type a with
      | none => []
      | some symbol => (entriesOf table symbol type).map (Entry.site base) := by
  have some_iff : ∀ argnm p, parent.arg2patcher (generateKeyString argnm type) = some p →
      entriesOf table argnm type ≠ []
        ∧ p.ctrlcodePatchinfo.map (p.site base) = (entriesOf table argnm type).map (Entry.site base) := by
    intro argnm p found
    have same := applied argnm type
    unfold ModuleElf.applied own at same
    rw [found] at same
    constructor
    · intro empty
      rw [empty] at same
      exact made.patchinfo_ne_nil found (List.map_eq_nil_iff.mp same)
    · -- the site is made of the scheme and the place alone
      have sites := congrArg (List.map fun x : SymbolType × PatchInfo =>
        Site.mk x.1 (base + x.2.offsetToPatchBuffer) x.2.offsetToBaseBoAddr x.2.mask) same
      simp only [Patcher.applied, List.map_map] at sites
      exact sites
  have none_iff : ∀ argnm, parent.arg2patcher (generateKeyString argnm type) = none →
      entriesOf table argnm type = [] := by
    intro argnm missing
    have same := applied argnm type
    unfold ModuleElf.applied own at same
    rw [missing] at same
    exact List.map_eq_nil_iff.mp same.symm
  unfold ModuleElf.sites ModuleElf.find symbolOf
  -- first the name, then the index, as in the source
  cases byName : parent.arg2patcher (generateKeyString a.1 type) with
  | some p =>
    obtain ⟨some, sites⟩ := some_iff a.1 p byName
    rw [if_pos some]
    exact sites
  | none =>
    rw [if_neg (not_not.mpr (none_iff a.1 byName))]
    cases byIndex : parent.arg2patcher (generateKeyString (decimal a.2) type) with
    | some p =>
      obtain ⟨some, sites⟩ := some_iff (decimal a.2) p byIndex
      rw [if_pos some]
      exact sites
    | none =>
      rw [if_neg (not_not.mpr (none_iff (decimal a.2) byIndex))]

theorem symbols_cons_none {a : Arg} (named : symbolOf table type a = none) (args : List Arg) :
    symbols table type (a :: args) = symbols table type args := List.filterMap_cons_none named

theorem symbols_cons_some {a : Arg} {symbol : Text} (named : symbolOf table type a = some symbol)
    (args : List Arg) : symbols table type (a :: args) = symbol :: symbols table type args :=
  List.filterMap_cons_some named

theorem valueOf_eq (value : Arg → BitVec 64) (nodup : (symbols table type args).Nodup) :
    ∀ a ∈ args, ∀ symbol, symbolOf table type a = some symbol →
      valueOf table type args value symbol = value a := by
  intro a inside symbol named
  unfold valueOf
  induction args with
  | nil => cases inside
  | cons b args ih =>
    by_cases mine : symbolOf table type b = some symbol
    · rw [List.find?_cons_of_pos (by simpa using mine)]
      rcases List.mem_cons.mp inside with rfl | later
      · rfl
      -- two arguments with one symbol are excluded
      · have twice : symbol ∈ symbols table type args := List.mem_filterMap.mpr ⟨a, later, named⟩
        rw [symbols_cons_some mine] at nodup
        exact absurd twice (List.nodup_cons.mp nodup).1
    · rw [List.find?_cons_of_neg (by simpa using mine)]
      have later : a ∈ args := by
        rcases List.mem_cons.mp inside with rfl | later
        · exact absurd named mine
        · exact later
      refine ih ?_ later
      cases other : symbolOf table type b with
      | none => rwa [symbols_cons_none other] at nodup
      | some s =>
        rw [symbols_cons_some other] at nodup
        exact (List.nodup_cons.mp nodup).2

/-- The arguments in order patch the groups of relocations of their symbols in order. -/
theorem flatMap_symbols {val : Text → BitVec 64}
    (values : ∀ a ∈ args, ∀ symbol, symbolOf table type a = some symbol → val symbol = value a) :
    (args.flatMap fun a => (match symbolOf table type a with
        | none => []
        | some symbol => (entriesOf table symbol type).map (Entry.site base)).map (·, value a))
      = (symbols table type args).flatMap fun symbol =>
        (entriesOf table symbol type).map fun e => (e.site base, val e.argnm) := by
  induction args with
  | nil => rfl
  | cons a args ih =>
    rw [List.forall_mem_cons] at values
    rw [List.flatMap_cons, ih values.2]
    cases named : symbolOf table type a with
    | none =>
      rw [symbols_cons_none named]
      rfl
    | some symbol =>
      rw [symbols_cons_some named, List.flatMap_cons, List.map_map]
      congr 1
      apply List.map_congr_left
      intro e member
      rw [Function.comp_apply, (mem_entriesOf.mp member).2.1, values.1 symbol named]

theorem entriesOf_eq (symbol : Text) (type : BufType) :
    entriesOf table symbol type = (tableOf table type).filter fun e => e.argnm = symbol := by
  rw [entriesOf, tableOf, List.filter_filter]
  apply List.filter_congr
  simp

theorem done_groups (once : Once table type args)
    (ordered : KeepsOrder table type base args value) (m : ByteMem) :
    done (patchSites ((symbols table type args).flatMap fun symbol =>
        (entriesOf table symbol type).map (applyEntry table type base args value)) m)
      = done (applyTable table type base args value m) := by
  have members : ∀ x, x ∈ ((symbols table type args).flatMap fun symbol =>
      (entriesOf table symbol type).map (applyEntry table type base args value))
        ↔ x ∈ (tableOf table type).map (applyEntry table type base args value) := by
    intro x
    simp only [List.mem_flatMap, List.mem_map, mem_entriesOf, tableOf, List.mem_filter,
      decide_eq_true_eq]
    constructor
    · rintro ⟨symbol, -, e, ⟨inside, -, buf⟩, rfl⟩
      exact ⟨e, ⟨inside, buf⟩, rfl⟩
    · rintro ⟨e, ⟨inside, buf⟩, rfl⟩
      exact ⟨e.argnm, once.all e inside buf, e, ⟨inside, rfl, buf⟩, rfl⟩
  have all : ∀ e ∈ tableOf table type, e.argnm ∈ symbols table type args := by
    intro e member
    obtain ⟨inside, buf⟩ := List.mem_filter.mp member
    exact once.all e inside (of_decide_eq_true buf)
  -- the arguments run the table group by group, one group for a symbol
  have groups := foldl_groups
    (f := fun m e => applySite m (applyEntry table type base args value e)) once.nodup all ordered m
  -- without exception the sites are a fold; whether one throws depends on the set of them
  rw [applyTable, done_patchSites, done_patchSites]
  simp only [members]
  simp only [List.foldl_flatMap, List.foldl_map, entriesOf_eq, groups]

/-- Whatever file a module accepts, its patchers apply every relocation of the table as the table says
if and only if the schemes of the table allow it; and then patching every argument once gives, buffer
by buffer, what the relocations give in the order of the table, as long as relocations that do not
commute keep their order. -/
theorem moduleElf_applies_table (elf : Elf) (parent : ModuleElf)
    (flow : elf.osAbi = elfAmdAie2p ∨ elf.osAbi = elfAmdAie2ps)
    (accepted : moduleElf elf = .ok parent) :
    ∃ table, parent.table elf = .ok table
      ∧ ((∀ argnm type, parent.applied argnm type = own table argnm type) ↔ OwnSchemes elf table)
      ∧ ∀ type base args value m, OwnSchemes elf table → Once table type args →
        KeepsOrder table type base args value →
        done (parent.patchArgs base type value args m)
          = done (applyTable table type base args value m) := by
  obtain ⟨places, placesOk, made⟩ := moduleElf_made flow accepted
  refine ⟨places.map fun x => x.1.entry x.2, ?_, made.applied_iff, ?_⟩
  · rw [ModuleElf.table, placesOk, ok_bind]
  · intro type base args value m schemes once ordered
    rw [patchArgs_eq, ← done_groups once ordered]
    simp only [sites_eq made (made.applied_iff.mpr schemes),
      flatMap_symbols (valueOf_eq value once.nodup)]
    rfl

theorem commutes_of_apart {x y : Site × BitVec 64} (runs : x.1.runs = true) (runs' : y.1.runs = true)
    (changes : Disjoint x.1.changes y.1.changes) (sources : Disjoint x.1.sources y.1.changes)
    (sources' : Disjoint y.1.sources x.1.changes) (m : ByteMem) :
    applySite (applySite m x) y = applySite (applySite m y) x :=
  (x.1.acts runs x.2).comm (y.1.acts runs' y.2) changes sources sources' m

/-- A file with control code of 32 bytes, and two arguments `3` and `4`. -/
def argumentsElf (rela : List Elf32Rela) : Elf where
  osAbi := elfAmdAie2p
  sections := [⟨[], []⟩, ⟨sectionNameToString .ctrltext, List.replicate 32 0⟩]
  dynsym := [⟨0, 0, 0⟩, ⟨1, 0xFFFFFFFF, 1⟩, ⟨3, 0xFFFF, 1⟩]
  dynstr := 0 :: ascii "3" ++ 0 :: ascii "4" ++ [0]
  rela := rela

/-- Two addresses of argument 3 with a scalar of argument 4 in between. -/
def interleavedElf : Elf := argumentsElf [⟨0, 0x10A, 5⟩, ⟨12, 0x20A, 3⟩, ⟨16, 0x10A, 5⟩]

def interleavedTable : List Entry :=
  [⟨ascii "3", .ctrltext, .shimDma48, ⟨0, 0, 0⟩⟩,
    ⟨ascii "4", .ctrltext, .scalar32bitKind, ⟨12, 0, 0xFFFF⟩⟩,
    ⟨ascii "3", .ctrltext, .shimDma48, ⟨16, 0, 0⟩⟩]

/-- The arguments with these indices have other names. -/
def indexedArgs : List Arg := [(ascii "ifm", 3), (ascii "size", 4)]

def indexedValue (a : Arg) : BitVec 64 := BitVec.ofNat 64 (0x1000 * a.2)

theorem moduleElf_applies_table_interleaved :
    ∃ parent, moduleElf interleavedElf = .ok parent
      ∧ done (parent.patchArgs 0x20000 .ctrltext indexedValue indexedArgs fun _ => 0)
        = done (applyTable interleavedTable .ctrltext 0x20000 indexedArgs indexedValue
          fun _ => 0) := by
  refine ⟨_, rfl, ?_⟩
  obtain ⟨table, tableOk, -, buffers⟩ :=
    moduleElf_applies_table interleavedElf _ (Or.inl rfl) rfl
  obtain rfl : table = interleavedTable := (Except.ok.inj tableOk).symm
  apply buffers
  · intro e inside f inside' names types
    revert e f
    decide
  · exact ⟨by decide, by decide⟩
  · refine List.Pairwise.cons ?_ (List.Pairwise.cons ?_ (List.pairwise_singleton _ _))
    · intro f member
      right
      revert f
      decide
    · -- the second address of argument 3 is patched before the scalar of argument 4
      intro f member
      obtain rfl := List.mem_singleton.mp member
      left
      refine commutes_of_apart rfl rfl ?_ (Set.empty_disjoint _) ?_
      · exact Set.disjoint_union_right.mpr
          ⟨disjoint_masked ⟨by decide, by decide⟩ _ _, disjoint_masked ⟨by decide, by decide⟩ _ _⟩
      · exact Set.disjoint_union_left.mpr
          ⟨disjoint_masked ⟨by decide, by decide⟩ _ _, disjoint_masked ⟨by decide, by decide⟩ _ _⟩

/-- A scalar of argument 3 and an address of argument 3. -/
def mixedElf : Elf := argumentsElf [⟨0, 0x10A, 3⟩, ⟨16, 0x10A, 5⟩]

def mixedTable : List Entry :=
  [⟨ascii "3", .ctrltext, .scalar32bitKind, ⟨0, 0, 0xFFFFFFFF⟩⟩,
    ⟨ascii "3", .ctrltext, .shimDma48, ⟨16, 0, 0⟩⟩]

/-- The address has no mask, and the patcher of the argument is one for scalars: it is skipped. -/
theorem mixed_schemes_skipped :
    ∃ parent, moduleElf mixedElf = .ok parent ∧ parent.table mixedElf = .ok mixedTable
      ∧ Once mixedTable .ctrltext indexedArgs
      ∧ (done (parent.patchArgs 0x20000 .ctrltext indexedValue indexedArgs fun _ => 0)).map
          (fun m => (read32 m 0x20000, read32 m 0x20014)) = some (0x3000, 0)
      ∧ (done (applyTable mixedTable .ctrltext 0x20000 indexedArgs indexedValue fun _ => 0)).map
          (fun m => (read32 m 0x20000, read32 m 0x20014)) = some (0x3000, 0x80003000) :=
  ⟨_, rfl, rfl, ⟨by decide, by decide⟩, by decide, by decide⟩

end Xrt.Aie
