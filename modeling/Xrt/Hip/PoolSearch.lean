import Xrt.Hip.PoolRuns

/-!
# The search of `malloc`

What `malloc` finds in the pools that calls of `malloc` and `free` lead to. Their blocks have one free
slot at most, with all that is not used of the block, and the last block is the first one made, whose
size is the one that blocks are passed over by. So the search finds a slot that fits if there is
one, and it does not go past the last block as long as the aligned size is not zero.
-/
namespace Xrt.Hip

open Lib

variable {p : Params} {s t : Pool} {n : Node} {alignedSize : Nat} {list : List (Nat × Node)}

def Node.freeSlots (n : Node) : List Nat := n.links.toList n.made n.freeList

/-- The free list of the block contains a slot of at least the size. -/
def Fits (alignedSize : Nat) (n : Node) : Prop :=
  ∃ slot ∈ n.freeSlots, alignedSize ≤ (n.slots slot).size

/-- The request rounded up to the next page, also where `size_t` has no such number. -/
def roundedUp (page size : Nat) : Nat := (size + page) / page * page

/-- The pool after a slot of one of its blocks, large enough, was allocated for the pointer. -/
def AllocatedFrom (alignedSize ptr : Nat) (s t : Pool) : Prop :=
  ∃ before id n slot after, s.list = before ++ (id, n) :: after
    ∧ slot ∈ n.freeSlots ∧ alignedSize ≤ (n.slots slot).size
    ∧ t.list = before ++ (id, n.take alignedSize slot) :: after
    ∧ (n.take alignedSize slot).allocSlots = slot :: n.allocSlots
    ∧ (ptr, id, slot) ∈ t.granted

/-- A call of `malloc` with a handle and a size that a block can hold returns. It allocates a slot if
one fits; otherwise the pool is extended at most once, and searched again. -/
def MallocRight (p : Params) (s : Pool) (ptr size : Nat) : Prop :=
  ∃ t, s.malloc p ptr size = some t
    ∧ ((∃ block ∈ s.list, Fits (roundedUp p.page size) block.2) →
      AllocatedFrom (roundedUp p.page size) ptr s t)
    ∧ ((∀ block ∈ s.list, ¬ Fits (roundedUp p.page size) block.2) →
      t = s ∨ t = s.extended p ∧ (∀ block ∈ t.list, ¬ Fits (roundedUp p.page size) block.2)
        ∨ AllocatedFrom (roundedUp p.page size) ptr (s.extended p) t)

/-! ### One block -/

/-- A block whose slots make it up, with no more memory than the blocks are taken to have. -/
structure Kept (p : Params) (n : Node) : Prop where
  inv : BlockInv n
  used : n.used = n.allocated
  size : n.memorySize ≤ p.poolSize

theorem new_kept {size : Nat} (small : size ≤ p.poolSize) : Kept p (Node.new size) :=
  ⟨new_blockInv size, rfl, small⟩

theorem Kept.poolSize_sub (kept : Kept p n) : sub64 p.poolSize n.used = p.poolSize - n.allocated := by
  have within := kept.inv.allocated_le
  have size := kept.size
  have := p.poolSize_le
  have := p.maxTotalSize_lt
  rw [sub64, kept.used]
  omega

/-- Either a slot fits, which is what is left of the block, or what is left does not. -/
theorem Kept.findFree (kept : Kept p n) (alignedSize : Nat) :
    (∃ slot, n.findFree alignedSize = some (some slot) ∧ slot ∈ n.freeSlots
        ∧ alignedSize ≤ (n.slots slot).size ∧ alignedSize ≤ n.memorySize - n.allocated)
      ∨ n.findFree alignedSize = some none ∧ ¬ Fits alignedSize n
        ∧ (0 < alignedSize → n.memorySize - n.allocated < alignedSize) := by
  obtain ⟨fs, as, shape, -⟩ := kept.inv
  have free : n.freeSlots = fs := shape.free.toList shape.length_le.1
  have total := shape.total
  have search := shape.free.search (fun x => alignedSize ≤ (n.slots x).size) shape.length_le.1
  have one := shape.one
  rw [Fits, free, Node.allocated, shape.allocSlots]
  cases fs with
  | nil =>
    refine Or.inr ⟨search, by simp, ?_⟩
    simp only [List.nil_append] at total
    exact fun _ => by omega
  | cons f rest =>
    -- the block has at most one free slot
    cases rest with
    | nil =>
      simp only [List.singleton_append, List.map_cons, List.sum_cons] at total
      by_cases fits : alignedSize ≤ (n.slots f).size
      · exact Or.inl ⟨f, search.trans (by simp [fits]), by simp, fits, by omega⟩
      · exact Or.inr ⟨search.trans (by simp [fits]), by simpa using fits, fun _ => by omega⟩
    | cons g rest => simp at one

variable {slot id : Nat} {mm : Node} {list' : List (Nat × Node)}

theorem take_used (fits : alignedSize ≤ (n.slots slot).size) :
    (n.take alignedSize slot).used = (n.used + alignedSize) % 2 ^ 64 := by
  rcases fits.lt_or_eq with larger | same
  · rw [take_of_lt n larger]
  · rw [take_of_eq n same.symm]

theorem Kept.take (kept : Kept p n) (found : n.findFree alignedSize = some (some slot))
    (fits : alignedSize ≤ (n.slots slot).size) : Kept p (n.take alignedSize slot) := by
  obtain ⟨inv, memory, -, -, allocated⟩ := kept.inv.take found
  have within := inv.allocated_le
  have size := kept.size
  have := p.poolSize_le
  have := p.maxTotalSize_lt
  refine ⟨inv, ?_, memory.trans_le size⟩
  rw [take_used fits, kept.used, allocated, Nat.mod_eq_of_lt (by omega), Nat.add_comm]

/-! ### All blocks -/

/-- A pass over the blocks from some block on, of which the last one has the size of the pool. -/
theorem scan_searchable (kept : ∀ block ∈ list, Kept p block.2)
    (last : ∀ block ∈ list.getLast?, block.2.memorySize = p.poolSize) (some' : 0 < alignedSize) :
    (scan p.poolSize alignedSize list = .missing ∧ ∀ block ∈ list, ¬ Fits alignedSize block.2)
      ∨ ∃ id slot mm list', scan p.poolSize alignedSize list = .found id slot mm list' := by
  induction list with
  | nil => exact Or.inl ⟨rfl, by simp⟩
  | cons block rest ih =>
    obtain ⟨id, n⟩ := block
    have own : Kept p n := kept (id, n) List.mem_cons_self
    have others : ∀ block ∈ rest, Kept p block.2 :=
      fun block member => kept block (List.mem_cons_of_mem (id, n) member)
    have left := own.poolSize_sub
    have size := own.size
    rcases own.findFree alignedSize with ⟨slot, found, -, -, fits⟩ | ⟨none, unfit, short⟩
    · refine Or.inr ⟨id, slot, n.take alignedSize slot, (id, n.take alignedSize slot) :: rest, ?_⟩
      rw [scan, if_neg (by rw [left]; omega), found]
    · have passed : scan p.poolSize alignedSize ((id, n) :: rest)
          = (scan p.poolSize alignedSize rest).behind (id, n) := by
        rw [scan]
        split
        · rfl
        · next long =>
          -- the last block is passed over by its size
          have more : rest ≠ [] := by
            rintro rfl
            have whole : n.memorySize = p.poolSize := last (id, n) rfl
            have := short some'
            rw [left] at long
            omega
          rw [none]
          exact if_neg more
      have later : ∀ block ∈ rest.getLast?, block.2.memorySize = p.poolSize := by
        intro block member
        apply last block
        rw [List.getLast?_cons, member]
        rfl
      rw [passed]
      rcases ih others later with ⟨missing, unfits⟩ | ⟨id', slot, mm, list', found⟩
      · rw [missing]
        exact Or.inl ⟨rfl, List.forall_mem_cons.mpr ⟨unfit, unfits⟩⟩
      · rw [found]
        exact Or.inr ⟨id', slot, mm, (id, n) :: list', rfl⟩

/-- What holds in the pools that calls of `malloc` and `free` lead to. -/
structure Searchable (p : Params) (s : Pool) : Prop where
  kept : ∀ block ∈ s.list, Kept p block.2
  blocks : s.list ≠ []
  last : ∀ block ∈ s.list.getLast?, block.2.memorySize = p.poolSize
  subs : ∀ entry ∈ s.db.addrMap, ∃ handle, entry.2 = .sub handle

theorem new_searchable (p : Params) : Searchable p (Pool.new p) := by
  refine ⟨?_, by simp [Pool.new, Pool.init], ?_, by simp [Pool.new, Pool.init]⟩
  · simpa [Pool.new, Pool.init] using new_kept le_rfl
  · simp [Pool.new, Pool.init, Node.new]

theorem Searchable.ready (searchable : Searchable p s) : s.ready p = s :=
  if_neg fun none => searchable.blocks (List.length_eq_zero_iff.mp none)

theorem addMemSz_le (p : Params) : Pool.addMemSz p ≤ p.poolSize := by
  unfold Pool.addMemSz
  dsimp only
  split <;> omega

theorem Searchable.extended (searchable : Searchable p s) : Searchable p (s.extended p) := by
  refine ⟨?_, List.cons_ne_nil _ _, ?_, searchable.subs⟩
  · exact List.forall_mem_cons.mpr ⟨new_kept (addMemSz_le p), searchable.kept⟩
  · intro block member
    apply searchable.last block
    obtain ⟨final, final_eq⟩ := Option.isSome_iff_exists.mp
      (List.getLast?_isSome.mpr searchable.blocks)
    rw [Pool.extended, List.getLast?_cons, final_eq] at member
    rw [final_eq]
    exact member

/-- A slot that a pass finds is in the free list of its block, and fits. -/
theorem Searchable.found (searchable : Searchable p s)
    (found : scan p.poolSize alignedSize s.list = .found id slot mm list') :
    ∃ before n after, s.list = before ++ (id, n) :: after
      ∧ list' = before ++ (id, n.take alignedSize slot) :: after ∧ mm = n.take alignedSize slot
      ∧ slot ∈ n.freeSlots ∧ alignedSize ≤ (n.slots slot).size
      ∧ n.findFree alignedSize = some (some slot) := by
  obtain ⟨before, n, after, blocks, rfl, search, rfl⟩ := scan_found found
  have own : Kept p n := searchable.kept (id, n) (by rw [blocks]; simp)
  rcases own.findFree alignedSize with ⟨slot', search', member, fits, -⟩ | ⟨none, -⟩
  · cases search'.symm.trans search
    exact ⟨before, n, after, blocks, rfl, rfl, member, fits, search⟩
  · cases none.symm.trans search

theorem Searchable.grant {ptr size subSize : Nat} (searchable : Searchable p s)
    (found : scan p.poolSize alignedSize s.list = .found id slot mm list') :
    Searchable p (s.grant ptr size subSize id slot mm list') := by
  obtain ⟨before, n, after, blocks, rfl, rfl, -, fits, search⟩ := searchable.found found
  have own : Kept p n := searchable.kept (id, n) (by rw [blocks]; simp)
  have memory := (own.inv.take search).2.1
  have kept : ∀ block ∈ before ++ (id, n.take alignedSize slot) :: after, Kept p block.2 := by
    intro block member
    have old := searchable.kept block
    rw [blocks] at old
    simp only [List.mem_append, List.mem_cons] at member old
    rcases member with front | rfl | back
    · exact old (Or.inl front)
    · exact own.take search fits
    · exact old (Or.inr (Or.inr back))
  have last : ∀ block ∈ (before ++ (id, n.take alignedSize slot) :: after).getLast?,
      block.2.memorySize = p.poolSize := by
    have old := searchable.last
    rw [blocks, List.getLast?_append_cons] at old
    rw [List.getLast?_append_cons]
    cases after with
    | nil => simpa [memory] using old
    | cons next after => simpa using old
  unfold Pool.grant
  dsimp only
  split
  · exact ⟨kept, by simp, last, searchable.subs⟩
  · exact ⟨kept, by simp, last, insert_subs searchable.subs⟩

theorem Searchable.served {ptr size : Nat} (searchable : Searchable p s)
    (served : Served p s ptr size t) : Searchable p t := by
  rcases served with rfl | ⟨subSize, id, slot, mm, list, found, rfl⟩
  · exact searchable
  · exact searchable.grant found

/-- Calls of `trim_to` are left out. -/
def PoolEvent.NoTrim : PoolEvent → Prop
  | .trimTo _ => False
  | _ => True

theorem poolStep_searchable {e : PoolEvent} (searchable : Searchable p s) (noTrim : e.NoTrim)
    (stepped : poolStep p s e = some t) : Searchable p t := by
  cases e with
  | insertSubMem size =>
    cases stepped
    exact ⟨searchable.kept, searchable.blocks, searchable.last, searchable.subs⟩
  | malloc ptr size =>
    rcases malloc_cases stepped with served | ⟨-, served⟩
    · rw [searchable.ready] at served
      exact searchable.served served
    · rw [searchable.ready] at served
      exact searchable.extended.served served
  | free ptr =>
    have left : ∀ entry ∈ (s.db.remove ptr).addrMap, ∃ handle, entry.2 = .sub handle :=
      fun entry member => searchable.subs entry (List.mem_of_mem_filter member)
    rcases free_of_subs searchable.subs ptr with kept | removed
    · cases kept.symm.trans stepped
      exact ⟨searchable.kept, searchable.blocks, searchable.last, searchable.subs⟩
    · cases removed.symm.trans stepped
      exact ⟨searchable.kept, searchable.blocks, searchable.last, left⟩
  | trimTo minBytesToHold => exact absurd noTrim id

/-! ### A call of `malloc` -/

variable {ptr size subSize : Nat}

theorem roundedUp_eq (fits : size + p.page < 2 ^ 64) :
    pageAligned p.page size = roundedUp p.page size := by
  rw [pageAligned, roundedUp, Nat.mod_eq_of_lt fits]

theorem lt_roundedUp (page : 0 < p.page) : size < roundedUp p.page size := by
  have split := Nat.div_add_mod (size + p.page) p.page
  have rest := Nat.mod_lt (size + p.page) page
  rw [roundedUp, Nat.mul_comm]
  omega

theorem BlockInv.within (inv : BlockInv n) (member : slot ∈ n.freeSlots)
    (some' : 0 < (n.slots slot).size) : (n.slots slot).start + (n.slots slot).size ≤ n.memorySize := by
  obtain ⟨fs, as, shape, tiles⟩ := inv
  rw [Node.freeSlots, shape.free.toList shape.length_le.1] at member
  have inside := tiles.inside (List.mem_map_of_mem (List.mem_append_left as member)) some'
  simp only [Node.whole, Node.range] at inside
  omega

theorem take_start (fits : alignedSize ≤ (n.slots slot).size) :
    ((n.take alignedSize slot).slots slot).start = (n.slots slot).start := by
  rcases fits.lt_or_eq with larger | same
  · rw [take_of_lt n larger]
    simp
  · rw [take_of_eq n same.symm]
    simp

/-- The slot found is large enough for the object of the pointer, so that its entry is made. -/
theorem Searchable.allocatedFrom (searchable : Searchable p s) (larger : size < alignedSize)
    (found : scan p.poolSize alignedSize s.list = .found id slot mm list') :
    AllocatedFrom alignedSize ptr s (s.grant ptr size subSize id slot mm list') := by
  obtain ⟨before, n, after, blocks, rfl, rfl, member, fits, search⟩ := searchable.found found
  have own : Kept p n := searchable.kept (id, n) (by rw [blocks]; simp)
  obtain ⟨-, memory, slots, -, -⟩ := own.inv.take search
  have within := own.inv.within member (by omega)
  have := own.size
  have := p.poolSize_le
  have := p.maxTotalSize_lt
  have enough : ¬ (size + ((n.take alignedSize slot).slots slot).start) % 2 ^ 64
      > (n.take alignedSize slot).memorySize := by
    rw [take_start fits, memory]
    omega
  refine ⟨before, id, n, slot, after, blocks, member, fits, ?_, slots, ?_⟩
  all_goals
    rw [Pool.grant]
    dsimp only
    rw [if_neg enough]
  exact List.mem_cons_self

section

variable (searchable : Searchable p s)
include searchable

/-- The second pass of `malloc`, after which it gives up. -/
theorem Searchable.secondPass (larger : size < alignedSize) :
    ∃ t, Pool.mallocLoop p ptr size subSize alignedSize 1 s = some t
      ∧ (t = s ∧ (∀ block ∈ t.list, ¬ Fits alignedSize block.2) ∨ AllocatedFrom alignedSize ptr s t) := by
  rcases scan_searchable searchable.kept searchable.last (Nat.zero_lt_of_lt larger) with
    ⟨missing, unfits⟩ | ⟨id, slot, mm, list', found⟩
  · refine ⟨s, ?_, Or.inl ⟨rfl, unfits⟩⟩
    rw [Pool.mallocLoop, missing]
    rfl
  · refine ⟨s.grant ptr size subSize id slot mm list', ?_, Or.inr ?_⟩
    · rw [Pool.mallocLoop, found]
    · exact searchable.allocatedFrom larger found

/-- Both passes of `malloc` if the first one finds nothing. -/
theorem Searchable.bothPasses (larger : size < alignedSize)
    (missing : scan p.poolSize alignedSize s.list = .missing)
    (unfits : ∀ block ∈ s.list, ¬ Fits alignedSize block.2) :
    ∃ t, Pool.mallocLoop p ptr size subSize alignedSize 2 s = some t
      ∧ (t = s ∨ t = s.extended p ∧ (∀ block ∈ t.list, ¬ Fits alignedSize block.2)
        ∨ AllocatedFrom alignedSize ptr (s.extended p) t) := by
  rw [Pool.mallocLoop, missing]
  dsimp only
  rw [if_neg Nat.one_ne_zero]
  by_cases auto : s.autoExtend = true
  · rw [if_pos auto]
    by_cases allowed : (p.poolSize + alignedSize) % 2 ^ 64 ≤ p.maxTotalSize
    · rw [extend_eq allowed]
      obtain ⟨t, returns, result⟩ := searchable.extended.secondPass larger
      exact ⟨t, returns, Or.inr result⟩
    · rw [Pool.extend, if_pos (not_le.mp allowed)]
      exact ⟨s, rfl, Or.inl rfl⟩
  · -- without an extension the second pass finds nothing either
    rw [if_neg auto]
    obtain ⟨t, returns, ⟨same, -⟩ | ⟨before, id, n, slot, after, blocks, member, fit, -⟩⟩ :=
      searchable.secondPass larger
    · exact ⟨t, returns, Or.inl same⟩
    · exact absurd ⟨slot, member, fit⟩ (unfits (id, n) (by rw [blocks]; simp))

/-- No block has a slot of more than its own size. -/
theorem Searchable.not_fits (large : p.poolSize < alignedSize) :
    ∀ block ∈ s.list, ¬ Fits alignedSize block.2 := by
  intro block member
  have own := searchable.kept block member
  have size := own.size
  rcases own.findFree alignedSize with ⟨_, _, _, _, enough⟩ | ⟨_, unfit, _⟩
  · omega
  · exact unfit

theorem Searchable.mallocRight (page : 0 < p.page)
    (fits : size + p.page < 2 ^ 64) (handle : s.db.getSubMem ptr = some subSize) :
    MallocRight p s ptr size := by
  have aligned := roundedUp_eq fits
  have larger : size < roundedUp p.page size := lt_roundedUp page
  generalize exact : roundedUp p.page size = alignedSize at aligned larger
  have calls : s.malloc p ptr size = if alignedSize > p.poolSize then some s
      else Pool.mallocLoop p ptr size subSize alignedSize 2 s := by
    simp only [Pool.malloc, searchable.ready, handle, aligned]
  rw [MallocRight, exact, calls]
  split
  · next large =>
    refine ⟨s, rfl, ?_, fun _ => Or.inl rfl⟩
    rintro ⟨block, member, fit⟩
    exact absurd fit (searchable.not_fits large block member)
  · rcases scan_searchable searchable.kept searchable.last (Nat.zero_lt_of_lt larger) with
      ⟨missing, unfits⟩ | ⟨id, slot, mm, list', found⟩
    · obtain ⟨t, returns, result⟩ := searchable.bothPasses larger missing unfits
      refine ⟨t, returns, ?_, fun _ => result⟩
      rintro ⟨block, member, fit⟩
      exact absurd fit (unfits block member)
    · refine ⟨s.grant ptr size subSize id slot mm list', ?_, ?_, ?_⟩
      · rw [Pool.mallocLoop, found]
      · exact fun _ => searchable.allocatedFrom larger found
      · intro unfits
        obtain ⟨before, n, after, blocks, -, -, member, fit, -⟩ := searchable.found found
        exact absurd ⟨slot, member, fit⟩ (unfits (id, n) (by rw [blocks]; simp))

end

/-! ### Sizes that `size_t` has no multiple for -/

theorem pageAligned_wrapped (small : size < 2 ^ 64) (wraps : 2 ^ 64 ≤ size + p.page) :
    pageAligned p.page size = 0 := by
  rw [pageAligned, Nat.div_eq_of_lt (by omega), Nat.zero_mul]

/-- No block is passed over by its size. -/
theorem scan_zero {poolSize : Nat} (blocks : list ≠ []) : scan poolSize 0 list ≠ .missing := by
  induction list with
  | nil => exact absurd rfl blocks
  | cons block rest ih =>
    rw [scan, if_neg (Nat.not_lt_zero _)]
    cases block.2.findFree 0 with
    | none => simp
    | some found =>
      cases found with
      | some slot => simp
      | none =>
        by_cases last : rest = []
        · simp [last]
        · have later := ih last
          cases scanned : scan poolSize 0 rest <;> simp_all [Scan.behind]

def usedSizes (list : List (Nat × Node)) : Nat := (list.map (·.2.used)).sum

theorem AllocatedFrom.usedSizes_ne (searchable : Searchable p s) (positive : 0 < alignedSize)
    (allocated : AllocatedFrom alignedSize ptr s t) : usedSizes t.list ≠ usedSizes s.list := by
  obtain ⟨before, id, n, slot, after, blocks, member, fits, taken, -⟩ := allocated
  have own : Kept p n := searchable.kept (id, n) (by rw [blocks]; simp)
  have within := own.inv.within member (by omega)
  have bytes := own.inv.allocated_le
  have used := own.used
  have size := own.size
  have := p.poolSize_le
  have := p.maxTotalSize_lt
  simp only [usedSizes, blocks, taken, List.map_append, List.map_cons, List.sum_append, List.sum_cons,
    take_used fits]
  omega

/-- A slot of no bytes is allocated, or the search goes past the last block. -/
theorem Searchable.not_mallocRight (searchable : Searchable p s) (page : 0 < p.page)
    (small : size < 2 ^ 64) (wraps : 2 ^ 64 ≤ size + p.page)
    (handle : s.db.getSubMem ptr = some subSize) : ¬ MallocRight p s ptr size := by
  rintro ⟨t, returns, fitting, unfitting⟩
  have positive : 0 < roundedUp p.page size := Nat.zero_lt_of_lt (lt_roundedUp page)
  simp only [Pool.malloc, searchable.ready, handle, pageAligned_wrapped small wraps, gt_iff_lt,
    Nat.not_lt_zero, if_false, Pool.mallocLoop] at returns
  cases scanned : scan p.poolSize 0 s.list with
  | missing => exact scan_zero searchable.blocks scanned
  | undefined =>
    rw [scanned] at returns
    cases returns
  | found id slot mm list' =>
    rw [scanned] at returns
    obtain ⟨before, n, after, blocks, rfl, rfl, -, fits, search⟩ := searchable.found scanned
    have own : Kept p n := searchable.kept (id, n) (by rw [blocks]; simp)
    have slots := (own.inv.take search).2.2.1
    have list : t.list = before ++ (id, n.take 0 slot) :: after := by
      rw [← Option.some.inj returns, Pool.grant]
      dsimp only
      split <;> rfl
    have length : t.list.length = s.list.length := by simp [list, blocks]
    have same : usedSizes t.list = usedSizes s.list := by
      simp only [usedSizes, list, blocks, List.map_append, List.map_cons, (own.take search fits).used,
        own.used, (own.inv.take search).2.2.2.2, Nat.zero_add]
    by_cases some : ∃ block ∈ s.list, Fits (roundedUp p.page size) block.2
    · exact (fitting some).usedSizes_ne searchable positive same
    · rcases unfitting (fun block member fit => some ⟨block, member, fit⟩) with
        rfl | ⟨rfl, -⟩ | ⟨before', id', n', slot', after', blocks', -, -, taken, -⟩
      · -- the slot was not allocated before
        rw [list, List.append_cancel_left_eq, List.cons.injEq, Prod.mk.injEq] at blocks
        rw [blocks.1.2] at slots
        exact absurd (congrArg List.length slots) (by simp)
      · simp [Pool.extended] at length
      · have longer := congrArg List.length blocks'
        simp only [Pool.extended, List.length_cons, ← length, taken, List.length_append] at longer
        omega

/-- In every pool that calls of `malloc` and `free` lead to, `malloc` finds a slot that fits or extends
the pool at most once, and it returns, if and only if the size and a page are a number of `size_t`. -/
theorem malloc_right_iff (p : Params) (page : 0 < p.page) {es : List PoolEvent}
    (noTrim : ∀ e ∈ es, e.NoTrim) (reached : run (poolStep p) (Pool.new p) es = some s)
    (handle : s.db.getSubMem ptr = some subSize) (small : size < 2 ^ 64) :
    MallocRight p s ptr size ↔ size + p.page < 2 ^ 64 := by
  have searchable : Searchable p s :=
    (run_good_iff_forall (fun _ _ _ inv => poolStep_searchable inv)
      (fun _ _ _ _ _ _ => (and_self_iff (a := True)).symm) (new_searchable p) noTrim reached).1
  constructor
  · intro right
    by_contra wraps
    exact searchable.not_mallocRight page small (Nat.le_of_not_lt wraps) handle right
  · exact fun fits => searchable.mallocRight page fits handle

/-- The run of two pointers, the first of which takes the only block. -/
def fullRun : List PoolEvent := [.insertSubMem 100, .insertSubMem 100, .malloc 69632 100]

def oneBlock : Params where
  page := 4096
  maxTotalSize := 4096
  poolSize := 4096
  poolSize_le := by decide
  maxTotalSize_lt := by decide

theorem malloc_finds_none : ∃ s, run (poolStep oneBlock) (Pool.new oneBlock) fullRun = some s
    ∧ MallocRight oneBlock s 73728 100 := by
  have noTrim : ∀ e ∈ fullRun, e.NoTrim := by simp [fullRun, PoolEvent.NoTrim]
  exact ⟨_, rfl, (malloc_right_iff oneBlock (by decide) noTrim rfl rfl (by decide)).mpr (by decide)⟩

/-- The largest size is rounded to zero, and the iterator is used behind the last block. -/
theorem malloc_past_end : ∃ s, run (poolStep oneBlock) (Pool.new oneBlock) fullRun = some s
    ∧ s.db.getSubMem 73728 = some 100 ∧ s.malloc oneBlock 73728 (2 ^ 64 - 1) = none
    ∧ ¬ MallocRight oneBlock s 73728 (2 ^ 64 - 1) := by
  refine ⟨_, rfl, rfl, rfl, ?_⟩
  rintro ⟨t, returns, -⟩
  cases returns

end Xrt.Hip
