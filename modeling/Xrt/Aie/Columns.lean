import Xrt.Lib.Run
import Xrt.Aie.Module

/-!
# Where the pages of a column begin

`initialize_column_ctrlcode` appends the text and the data of one page after another and pads the
column to the end of the page, not to its beginning. The vector of columns has one element for each
column that there is. So the pages are where relocations expect them exactly if the columns, and the
pages of each column, are numbered without a gap.
-/
namespace Xrt.Aie

open Lib

/-- What a page of a column consists of. -/
def ColumnPage.content (secs : ColumnPage) : List Byte := secs.ctrltext.getD [] ++ secs.ctrldata.getD []

/-- The text and data of every page is put at the start of the page, and ends in it. -/
def ColumnRight (pages : List (Nat × ColumnPage)) (data buffer : List Byte) : Prop :=
  ∀ before page secs after, pages = before ++ (page, secs) :: after →
    ∃ built, columnCtrlcode before data = .ok built ∧ built.length = page * columnPageSize
      ∧ secs.content.length ≤ columnPageSize ∧ built ++ secs.content <+: buffer

/-- The code throws, or every column has its element with its pages at their places. -/
def LayoutRight (elf : Elf) : Prop :=
  match initializeColumnCtrlcode elf with
  | .error (.runtime _) => True
  -- an index outside of the vector
  | .error .undefined => False
  | .ok ctrlcodes => ∀ colSecs, collectSections elf.sections [] = .ok colSecs →
      ∀ col pages, (col, pages) ∈ colSecs →
        ∃ buffer, ctrlcodes[col]? = some buffer ∧ ColumnRight pages [] buffer

/-- The keys are the numbers from `n` on. -/
def NumberedFrom {β : Type} (n : Nat) : List (Nat × β) → Prop
  | [] => True
  | (k, _) :: rest => k = n ∧ NumberedFrom (n + 1) rest

/-! ### One column -/

variable {data buffer : List Byte} {pages : List (Nat × ColumnPage)}

theorem padToPage_ok {page : Nat} (ok : padToPage data page = .ok buffer) :
    data.length ≤ u32 (page + 1) * columnPageSize ∧ data <+: buffer
      ∧ buffer.length = u32 (page + 1) * columnPageSize := by
  unfold padToPage at ok
  dsimp only at ok
  split at ok
  · cases ok
  · cases ok
    refine ⟨by omega, List.prefix_append _ _, ?_⟩
    rw [List.length_append, List.length_replicate]
    omega

theorem columnCtrlcode_cons {page : Nat} {secs : ColumnPage} {rest : List (Nat × ColumnPage)} :
    columnCtrlcode ((page, secs) :: rest) data
      = padToPage (data ++ secs.content) page >>= columnCtrlcode rest := by
  rw [columnCtrlcode, ColumnPage.content, List.append_assoc]

theorem columnCtrlcode_extends (ok : columnCtrlcode pages data = .ok buffer) : data <+: buffer := by
  induction pages generalizing data with
  | nil =>
    cases ok
    exact List.prefix_rfl
  | cons entry rest ih =>
    rw [columnCtrlcode_cons] at ok
    obtain ⟨padded, paddedOk, restOk⟩ := ok_of_bind_ok ok
    exact ((List.prefix_append _ _).trans (padToPage_ok paddedOk).2.1).trans (ih restOk)

/-- A page that begins at its place ends at the next one. -/
theorem padToPage_next {n : Nat} {content padded : List Byte} (here : data.length = n * columnPageSize)
    (ok : padToPage (data ++ content) n = .ok padded) :
    padded.length = (n + 1) * columnPageSize ∧ content.length ≤ columnPageSize := by
  obtain ⟨room, -, length⟩ := padToPage_ok ok
  rw [List.length_append, here] at room
  have small : u32 (n + 1) = n + 1 := by
    unfold columnPageSize at room
    unfold u32 at room ⊢
    have le := Nat.mod_le (n + 1) (2 ^ 32)
    by_contra wrapped
    have zero := Nat.mod_lt (n + 1) (Nat.two_pow_pos 32)
    omega
  rw [small, Nat.add_mul] at room
  exact ⟨by rw [length, small], by omega⟩

theorem columnRight_iff {n : Nat} (ok : columnCtrlcode pages data = .ok buffer)
    (here : data.length = n * columnPageSize) :
    ColumnRight pages data buffer ↔ NumberedFrom n pages := by
  induction pages generalizing n data with
  | nil =>
    refine iff_of_true ?_ trivial
    rintro before page secs after split
    cases before <;> cases split
  | cons entry rest ih =>
    obtain ⟨page, secs⟩ := entry
    rw [columnCtrlcode_cons] at ok
    obtain ⟨padded, paddedOk, restOk⟩ := ok_of_bind_ok ok
    have next (first : page = n) := padToPage_next here (first ▸ paddedOk)
    constructor
    · -- the first page is at its place only if it is the next one
      intro right
      obtain ⟨built, builtOk, start, -, -⟩ := right [] page secs rest rfl
      cases builtOk
      rw [here] at start
      have first : page = n := (Nat.mul_right_cancel (by decide) start).symm
      refine ⟨first, (ih restOk (next first).1).mp ?_⟩
      intro before page' secs' after split
      obtain ⟨built, builtOk, facts⟩ := right ((page, secs) :: before) page' secs' after
        (by rw [split, List.cons_append])
      rw [columnCtrlcode_cons, paddedOk, ok_bind] at builtOk
      exact ⟨built, builtOk, facts⟩
    · rintro ⟨first, rest'⟩ before page' secs' after split
      have later := (ih restOk (next first).1).mpr rest'
      cases before with
      | nil =>
        cases split
        exact ⟨data, rfl, by rw [here, first], (next first).2,
          (padToPage_ok paddedOk).2.1.trans (columnCtrlcode_extends restOk)⟩
      | cons entry before =>
        cases split
        obtain ⟨built, builtOk, facts⟩ := later before page' secs' after rfl
        refine ⟨built, ?_, facts⟩
        rw [columnCtrlcode_cons, paddedOk, ok_bind, builtOk]

/-! ### The columns -/

def Ascending {β : Type} (xs : List (Nat × β)) : Prop := xs.Pairwise fun x y => x.1 < y.1

section Map

variable {β : Type} {xs : List (Nat × β)} {key n : Nat} {initial : β} {f : β → β}

theorem mem_upsert {x : Nat × β} (member : x ∈ upsert key initial f xs) :
    x.1 = key ∨ ∃ y ∈ xs, y.1 = x.1 := by
  induction xs with
  | nil =>
    rw [upsert, List.mem_singleton] at member
    exact Or.inl (by rw [member])
  | cons entry rest ih =>
    obtain ⟨k, b⟩ := entry
    rw [upsert] at member
    split at member
    · rcases List.mem_cons.mp member with rfl | old
      · exact Or.inl rfl
      · exact Or.inr ⟨x, old, rfl⟩
    · split at member
      · rcases List.mem_cons.mp member with rfl | old
        · exact Or.inr ⟨(k, b), List.mem_cons_self, rfl⟩
        · exact Or.inr ⟨x, List.mem_cons_of_mem _ old, rfl⟩
      · rcases List.mem_cons.mp member with rfl | new
        · exact Or.inr ⟨(k, b), List.mem_cons_self, rfl⟩
        · rcases ih new with same | ⟨y, old, same⟩
          · exact Or.inl same
          · exact Or.inr ⟨y, List.mem_cons_of_mem _ old, same⟩

theorem ascending_upsert (ascending : Ascending xs) : Ascending (upsert key initial f xs) := by
  induction xs with
  | nil => exact List.pairwise_singleton _ _
  | cons entry rest ih =>
    obtain ⟨k, b⟩ := entry
    obtain ⟨first, later⟩ := List.pairwise_cons.mp ascending
    rw [upsert]
    split
    next less =>
      refine List.pairwise_cons.mpr ⟨List.forall_mem_cons.mpr ⟨less, ?_⟩, ascending⟩
      exact fun x member => less.trans (first x member)
    · split
      · exact List.pairwise_cons.mpr ⟨first, later⟩
      · refine List.pairwise_cons.mpr ⟨fun x member => ?_, ih later⟩
        rcases mem_upsert member with same | ⟨y, old, same⟩
        · rw [same]
          dsimp only
          omega
        · rw [← same]
          exact first y old

theorem NumberedFrom.getElem? (numbered : NumberedFrom n xs) {i k : Nat} {b : β}
    (here : xs[i]? = some (k, b)) : k = n + i := by
  induction xs generalizing n i with
  | nil => simp at here
  | cons entry rest ih =>
    obtain ⟨first, later⟩ := numbered
    cases i with
    | zero =>
      cases here
      exact first
    | succ i =>
      rw [ih later here]
      omega

/-- There are only so many numbers in a range. -/
theorem Ascending.length_le (ascending : Ascending xs) {m : Nat} (inside : ∀ x ∈ xs, n ≤ x.1 ∧ x.1 < m) :
    xs.length ≤ m - n := by
  induction xs generalizing n with
  | nil => exact Nat.zero_le _
  | cons entry rest ih =>
    obtain ⟨first, later⟩ := List.pairwise_cons.mp ascending
    rw [List.forall_mem_cons] at inside
    have less := ih later (n := n + 1) fun x member =>
      ⟨Nat.succ_le_of_lt (Nat.lt_of_le_of_lt inside.1.1 (first x member)), (inside.2 x member).2⟩
    rw [List.length_cons]
    omega

theorem Ascending.numbered (ascending : Ascending xs)
    (inside : ∀ x ∈ xs, n ≤ x.1 ∧ x.1 < n + xs.length) : NumberedFrom n xs := by
  induction xs generalizing n with
  | nil => trivial
  | cons entry rest ih =>
    obtain ⟨first, later⟩ := List.pairwise_cons.mp ascending
    rw [List.forall_mem_cons, List.length_cons] at inside
    have few := Ascending.length_le (n := entry.1 + 1) later fun x member =>
      ⟨first x member, (inside.2 x member).2⟩
    have start : entry.1 = n := by omega
    refine ⟨start, ih later fun x member => ?_⟩
    have above := first x member
    have below := (inside.2 x member).2
    omega

end Map

theorem ascending_collectSections {secs : List Section} {colSecs result : ColumnSections}
    (ascending : Ascending colSecs) (ok : collectSections secs colSecs = .ok result) :
    Ascending result := by
  induction secs generalizing colSecs with
  | nil =>
    cases ok
    exact ascending
  | cons sec rest ih =>
    rw [collectSections] at ok
    split at ok
    · obtain ⟨place, -, restOk⟩ := ok_of_bind_ok ok
      exact ih (ascending_upsert ascending) restOk
    · split at ok
      · obtain ⟨place, -, restOk⟩ := ok_of_bind_ok ok
        exact ih (ascending_upsert ascending) restOk
      · exact ih ascending ok

/-- What a column becomes. -/
def columnOf (columns : Nat) (entry : Nat × List (Nat × ColumnPage)) : Except Error (List Byte) :=
  if entry.1 < columns then columnCtrlcode entry.2 [] else .error .undefined

theorem initializeColumnCtrlcode_eq (elf : Elf) : initializeColumnCtrlcode elf
    = collectSections elf.sections [] >>= fun colSecs => colSecs.mapM (columnOf colSecs.length) := rfl

theorem columnCtrlcode_defined : columnCtrlcode pages data ≠ .error .undefined := by
  induction pages generalizing data with
  | nil => simp [columnCtrlcode]
  | cons entry rest ih =>
    rw [columnCtrlcode_cons, padToPage]
    split
    · simp [error_bind]
    · exact ih

theorem columns_defined {colSecs : ColumnSections} (numbered : NumberedFrom 0 colSecs) :
    colSecs.mapM (columnOf colSecs.length) ≠ .error .undefined := by
  intro failed
  obtain ⟨entry, member, fails⟩ := exists_mem_of_mapM_error failed
  obtain ⟨i, bound, here⟩ := List.mem_iff_getElem.mp member
  have col := numbered.getElem? (List.getElem?_eq_some_iff.mpr ⟨bound, here⟩)
  rw [columnOf, if_pos (by omega)] at fails
  exact columnCtrlcode_defined fails

theorem numbered_of_ok {colSecs : ColumnSections} {ctrlcodes : List (List Byte)}
    (ascending : Ascending colSecs) (ok : colSecs.mapM (columnOf colSecs.length) = .ok ctrlcodes) :
    NumberedFrom 0 colSecs := by
  apply ascending.numbered
  intro entry member
  obtain ⟨i, here⟩ := List.getElem?_of_mem member
  obtain ⟨buffer, -, made⟩ := getElem?_of_mapM_ok ok here
  unfold columnOf at made
  split at made
  · omega
  · cases made

/-- Every column is at the place of its number, and its pages are right if they are numbered. -/
theorem columnRight_of_ok {colSecs : ColumnSections} {ctrlcodes : List (List Byte)}
    (numbered : NumberedFrom 0 colSecs) (ok : colSecs.mapM (columnOf colSecs.length) = .ok ctrlcodes)
    {col : Nat} {pages : List (Nat × ColumnPage)} (member : (col, pages) ∈ colSecs) :
    (∃ buffer, ctrlcodes[col]? = some buffer ∧ ColumnRight pages [] buffer)
      ↔ NumberedFrom 0 pages := by
  obtain ⟨i, here⟩ := List.getElem?_of_mem member
  obtain ⟨buffer, found, made⟩ := getElem?_of_mapM_ok ok here
  have index : col = i := by rw [numbered.getElem? here, Nat.zero_add]
  have bound := (List.getElem?_eq_some_iff.mp here).1
  rw [columnOf, if_pos (by omega)] at made
  rw [index, found]
  simp only [Option.some.injEq, exists_eq_left']
  exact columnRight_iff made (Nat.zero_mul _).symm

/-- Pages and data are where relocations expect them exactly if the code throws, or the columns and
the pages of every column are numbered from zero on without a gap. -/
theorem layoutRight_iff (elf : Elf) :
    LayoutRight elf ↔ (∃ what, initializeColumnCtrlcode elf = .error (.runtime what))
      ∨ ∃ colSecs, collectSections elf.sections [] = .ok colSecs ∧ NumberedFrom 0 colSecs
        ∧ ∀ entry ∈ colSecs, NumberedFrom 0 entry.2 := by
  unfold LayoutRight
  split
  next what thrown => exact iff_of_true trivial (Or.inl ⟨what, thrown⟩)
  next undefined =>
    refine iff_of_false id ?_
    rintro (⟨what, thrown⟩ | ⟨colSecs, collected, numbered, -⟩)
    · rw [thrown] at undefined
      cases undefined
    · rw [initializeColumnCtrlcode_eq, collected, ok_bind] at undefined
      exact columns_defined numbered undefined
  next ctrlcodes ok =>
    have made := ok
    rw [initializeColumnCtrlcode_eq] at made
    obtain ⟨colSecs, collected, columns⟩ := ok_of_bind_ok made
    have numbered := numbered_of_ok (ascending_collectSections List.Pairwise.nil collected) columns
    constructor
    · intro right
      refine Or.inr ⟨colSecs, collected, numbered, fun entry member => ?_⟩
      exact (columnRight_of_ok numbered columns member).mp (right colSecs collected _ _ member)
    · rintro (⟨what, thrown⟩ | ⟨colSecs', collected', -, pages⟩) colSecs'' again col column member
      · rw [thrown] at ok
        cases ok
      · obtain rfl : colSecs = colSecs' := Except.ok.inj (collected.symm.trans collected')
        obtain rfl : colSecs = colSecs'' := Except.ok.inj (collected.symm.trans again)
        exact (columnRight_of_ok numbered columns member).mpr (pages _ member)

/-- Pages 0 and 2 of one column. -/
def gapElf : Elf where
  osAbi := elfAmdAie2ps
  sections := [⟨ascii ".ctrltext.0.0", [1]⟩, ⟨ascii ".ctrltext.0.2", [2]⟩]
  dynsym := []
  dynstr := []
  rela := []

def gapPages : List (Nat × ColumnPage) := [(0, ⟨some [1], none⟩), (2, ⟨some [2], none⟩)]

def gapColumn : List Byte := [1] ++ List.replicate 8191 0 ++ [2] ++ List.replicate 16383 0

/-- The column has three pages, and page 2 begins where page 1 should. -/
theorem gap_moves_page :
    initializeColumnCtrlcode gapElf = .ok [gapColumn] ∧ gapColumn.length = 3 * columnPageSize
      ∧ gapColumn[1 * columnPageSize]? = some 2 ∧ ¬ LayoutRight gapElf := by
  have collected : collectSections gapElf.sections [] = .ok [(0, gapPages)] := rfl
  have first : padToPage [1] 0 = .ok ([1] ++ List.replicate 8191 0) := rfl
  have length : ([1] ++ List.replicate 8191 (0 : Byte) ++ [2]).length = 8193 := by
    simp only [List.length_append, List.length_replicate, List.length_singleton]
  have second : padToPage ([1] ++ List.replicate 8191 0 ++ [2]) 2 = .ok gapColumn := by
    rw [padToPage, length]
    rfl
  have column : columnCtrlcode gapPages [] = .ok gapColumn := by
    rw [gapPages, columnCtrlcode_cons, ColumnPage.content]
    simp only [Option.getD_some, Option.getD_none, List.nil_append, List.append_nil]
    rw [first, ok_bind, columnCtrlcode_cons, ColumnPage.content]
    simp only [Option.getD_some, Option.getD_none, List.append_nil]
    rw [second]
    rfl
  have columns : [(0, gapPages)].mapM (columnOf 1) = .ok [gapColumn] := by
    rw [mapM_eq_ok_iff]
    exact .cons column .nil
  have made : initializeColumnCtrlcode gapElf = .ok [gapColumn] := by
    rw [initializeColumnCtrlcode_eq, collected, ok_bind]
    exact columns
  refine ⟨made, ?_, ?_, ?_⟩
  · rw [gapColumn, List.length_append, length, List.length_replicate]
    rfl
  · have front : ([1] ++ List.replicate 8191 (0 : Byte)).length = 8192 := by
      rw [List.length_append, List.length_replicate, List.length_singleton]
    rw [gapColumn, List.append_assoc, List.getElem?_append_right (by rw [front]; decide), front]
    rfl
  · rw [LayoutRight, made]
    intro right
    have numbered : NumberedFrom 0 [(0, gapPages)] := ⟨rfl, trivial⟩
    have here := right _ collected 0 gapPages List.mem_cons_self
    have pages := (columnRight_of_ok numbered columns List.mem_cons_self).mp here
    exact absurd pages.2.1 (by decide)

end Xrt.Aie
