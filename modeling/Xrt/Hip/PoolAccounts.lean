import Xrt.Hip.BlockPartition
import Xrt.Hip.Pool

/-!
# The accounts of a memory pool

The reserved amount is the sum of the blocks, the used amount the sum of the allocated slots. Blocks
that extend the pool are not counted against its limit, and a freed pointer does not give its slot
back, since the database knows the `sub_memory` object of a pointer and not the one of its block.
-/
namespace Xrt.Hip

open Lib

variable {p : Params} {s t : Pool} {n : Node} {ptr size subSize id slot alignedSize poolSize : Nat}
  {mm : Node} {list list' : List (Nat × Node)}

def Node.allocSlots (n : Node) : List Nat := n.links.toList n.made n.allocList

def Node.allocated (n : Node) : Nat := (n.allocSlots.map fun x => (n.slots x).size).sum

/-! ### One block -/

theorem Shape.allocSlots {fs as : List Nat} (shape : Shape n fs as) : n.allocSlots = as :=
  shape.alloc.toList shape.length_le.2

theorem new_allocSlots (size : Nat) : (Node.new size).allocSlots = [] := rfl

theorem BlockInv.allocated_le (inv : BlockInv n) : n.allocated ≤ n.memorySize := by
  obtain ⟨fs, as, shape, -⟩ := inv
  have total := shape.total
  rw [List.map_append, List.sum_append] at total
  rw [Node.allocated, shape.allocSlots]
  omega

theorem Shape.take_slots {f : Nat} {as : List Nat} (shape : Shape n [f] as)
    (fits : alignedSize ≤ (n.slots f).size) :
    (∀ y ∈ as, (n.take alignedSize f).slots y = n.slots y)
      ∧ ((n.take alignedSize f).slots f).size = alignedSize
      ∧ (n.take alignedSize f).memorySize = n.memorySize := by
  have fresh : f ∉ as := (List.nodup_cons.mp shape.nodup).1
  -- a larger slot is divided, one of the size is taken whole
  rcases fits.lt_or_eq with larger | same
  · rw [Hip.take_of_lt n larger]
    refine ⟨fun y member => ?_, by simp, rfl⟩
    have old := shape.made y (by simp [member])
    dsimp only
    rw [Function.update_of_ne (ne_of_mem_of_not_mem member fresh), Function.update_of_ne old.ne]
  · rw [Hip.take_of_eq n same.symm]
    refine ⟨fun y member => ?_, by simp [same], rfl⟩
    exact Function.update_of_ne (ne_of_mem_of_not_mem member fresh) ..

theorem BlockInv.take (inv : BlockInv n) (found : n.findFree alignedSize = some (some slot)) :
    BlockInv (n.take alignedSize slot)
      ∧ (n.take alignedSize slot).memorySize = n.memorySize
      ∧ (n.take alignedSize slot).allocSlots = slot :: n.allocSlots
      ∧ ((n.take alignedSize slot).slots slot).size = alignedSize
      ∧ (n.take alignedSize slot).allocated = alignedSize + n.allocated := by
  obtain ⟨fs, as, shape, tiles⟩ := inv
  rcases shape.findFree alignedSize with none | ⟨f, rfl, fits, other⟩
  · cases none.symm.trans found
  · cases other.symm.trans found
    obtain ⟨gs, shape', tiles'⟩ := shape.take fits tiles
    obtain ⟨others, own, memory⟩ := shape.take_slots fits
    have rest : as.map (fun y => ((n.take alignedSize slot).slots y).size)
        = as.map fun y => (n.slots y).size :=
      List.map_congr_left fun y member => by rw [others y member]
    refine ⟨⟨gs, slot :: as, shape', tiles'⟩, memory, ?_, own, ?_⟩
    · rw [shape'.allocSlots, shape.allocSlots]
    · rw [Node.allocated, Node.allocated, shape'.allocSlots, shape.allocSlots, List.map_cons,
        List.sum_cons, rest, own]

/-! ### Passes over the blocks -/

theorem scan_cons (poolSize alignedSize id : Nat) (n : Node) (rest : List (Nat × Node)) :
    scan poolSize alignedSize ((id, n) :: rest)
        = (scan poolSize alignedSize rest).behind (id, n)
      ∨ (∃ slot, n.findFree alignedSize = some (some slot)
        ∧ scan poolSize alignedSize ((id, n) :: rest)
          = .found id slot (n.take alignedSize slot) ((id, n.take alignedSize slot) :: rest))
      ∨ (n.findFree alignedSize = none ∨ rest = [])
        ∧ scan poolSize alignedSize ((id, n) :: rest) = .undefined := by
  rw [scan]
  split
  · exact Or.inl rfl
  · split
    · rename_i search
      exact Or.inr (Or.inr ⟨Or.inl search, rfl⟩)
    · rename_i slot search
      exact Or.inr (Or.inl ⟨slot, search, rfl⟩)
    · split
      · rename_i last
        exact Or.inr (Or.inr ⟨Or.inr last, rfl⟩)
      · exact Or.inl rfl

theorem scan_found (found : scan poolSize alignedSize list = .found id slot mm list') :
    ∃ before n after, list = before ++ (id, n) :: after ∧ list' = before ++ (id, mm) :: after
      ∧ n.findFree alignedSize = some (some slot) ∧ mm = n.take alignedSize slot := by
  induction list generalizing list' with
  | nil => cases found
  | cons block rest ih =>
    obtain ⟨first, node⟩ := block
    -- the induction is on the blocks: those before the one with the slot stay
    rcases scan_cons poolSize alignedSize first node rest with
      later | ⟨taken, search, here⟩ | ⟨-, stuck⟩
    · rw [later] at found
      cases deeper : scan poolSize alignedSize rest with
      | found id' slot' mm' list =>
        rw [deeper] at found
        cases found
        obtain ⟨before, n, after, rfl, rfl, search, taken⟩ := ih deeper
        exact ⟨(first, node) :: before, n, after, rfl, rfl, search, taken⟩
      | missing =>
        rw [deeper] at found
        cases found
      | undefined =>
        rw [deeper] at found
        cases found
    · cases here.symm.trans found
      exact ⟨[], node, rest, rfl, rfl, search, rfl⟩
    · cases stuck.symm.trans found

/-! ### The accounts -/

def blockSizes (list : List (Nat × Node)) : Nat := (list.map fun block => block.2.memorySize).sum

def allocatedSizes (list : List (Nat × Node)) : Nat := (list.map fun block => block.2.allocated).sum

/-- The sizes of the allocated slots that the user has not freed. -/
def Pool.unfreedSize (s : Pool) : Nat :=
  (s.list.map fun block => (block.2.allocSlots.map fun x =>
    if (block.1, x) ∈ s.freed then 0 else (block.2.slots x).size).sum).sum

structure Accounts (p : Params) (s : Pool) : Prop where
  blocks : ∀ block ∈ s.list, BlockInv block.2
  reserved : s.reservedMemCurrent = blockSizes s.list
  limit : s.reservedMemCurrent ≤ p.maxTotalSize
  used : s.usedMemCurrent = allocatedSizes s.list
  freed : s.freed = []
  granted : ∀ grant ∈ s.granted, ∃ n, (grant.2.1, n) ∈ s.list ∧ grant.2.2 ∈ n.allocSlots
  subs : ∀ entry ∈ s.db.addrMap, ∃ handle, entry.2 = .sub handle

theorem allocatedSizes_le (blocks : ∀ block ∈ list, BlockInv block.2) :
    allocatedSizes list ≤ blockSizes list := by
  apply List.sum_le_sum
  exact fun block member => (blocks block member).allocated_le

theorem Accounts.unfreedSize (accounts : Accounts p s) : s.unfreedSize = allocatedSizes s.list := by
  simp [Pool.unfreedSize, accounts.freed, allocatedSizes, Node.allocated]

theorem scan_found_blocks (blocks : ∀ block ∈ list, BlockInv block.2)
    (found : scan poolSize alignedSize list = .found id slot mm list') :
    (∀ block ∈ list', BlockInv block.2) ∧ blockSizes list' = blockSizes list
      ∧ (mm.slots slot).size = alignedSize
      ∧ allocatedSizes list' = allocatedSizes list + alignedSize
      ∧ (id, mm) ∈ list' ∧ slot ∈ mm.allocSlots
      ∧ ∀ id' n, (id', n) ∈ list → ∃ n', (id', n') ∈ list' ∧ n.allocSlots ⊆ n'.allocSlots := by
  obtain ⟨before, n, after, rfl, rfl, search, rfl⟩ := scan_found found
  obtain ⟨inv, memory, slots, own, amount⟩ := (blocks (id, n) (by simp)).take search
  refine ⟨?_, ?_, own, ?_, by simp, by simp [slots], ?_⟩
  · intro block member
    rcases List.mem_append.mp member with old | member
    · exact blocks block (by simp [old])
    · rcases List.mem_cons.mp member with rfl | old
      · exact inv
      · exact blocks block (by simp [old])
  · simp [blockSizes, memory]
  · simp only [allocatedSizes, List.map_append, List.map_cons, List.sum_append, List.sum_cons, amount]
    omega
  · intro id' m member
    rcases List.mem_append.mp member with old | member
    · exact ⟨m, by simp [old], List.Subset.refl _⟩
    · rcases List.mem_cons.mp member with same | old
      · cases same
        exact ⟨n.take alignedSize slot, by simp, by simp [slots]⟩
      · exact ⟨m, by simp [old], List.Subset.refl _⟩

theorem insert_subs {db : Database} (subs : ∀ entry ∈ db.addrMap, ∃ handle, entry.2 = .sub handle) :
    ∀ entry ∈ (db.insert ptr subSize (.sub ptr)).addrMap, ∃ handle, entry.2 = .sub handle := by
  unfold Database.insert
  split
  · exact subs
  · intro entry member
    rcases List.mem_cons.mp member with rfl | old
    · exact ⟨ptr, rfl⟩
    · exact subs entry old

/-- What `grant` changes: the blocks and the used amount, and maybe an entry of the pointer. -/
theorem Accounts.grant (accounts : Accounts p s)
    (found : scan p.poolSize alignedSize s.list = .found id slot mm list') :
    Accounts p (s.grant ptr size subSize id slot mm list') := by
  obtain ⟨blocks, sizes, own, amount, member, listed, kept⟩ :=
    scan_found_blocks accounts.blocks found
  -- the used amount stays below the limit of the reserved one, so it does not wrap
  have small : s.usedMemCurrent + alignedSize < 2 ^ 64 := by
    have := allocatedSizes_le blocks
    have := accounts.reserved
    have := accounts.limit
    have := accounts.used
    have := p.maxTotalSize_lt
    omega
  have used : (s.usedMemCurrent + (mm.slots slot).size) % 2 ^ 64 = allocatedSizes list' := by
    rw [own, Nat.mod_eq_of_lt small, amount, accounts.used]
  have granted : ∀ grant ∈ s.granted,
      ∃ n, (grant.2.1, n) ∈ list' ∧ grant.2.2 ∈ n.allocSlots := by
    intro grant old
    obtain ⟨n, block, inside⟩ := accounts.granted grant old
    obtain ⟨n', block', more⟩ := kept _ n block
    exact ⟨n', block', more inside⟩
  -- no block changes its size
  have reserved : s.reservedMemCurrent = blockSizes list' := accounts.reserved.trans sizes.symm
  unfold Pool.grant
  simp only
  split
  · exact ⟨blocks, reserved, accounts.limit, used, accounts.freed, granted, accounts.subs⟩
  · refine ⟨blocks, reserved, accounts.limit, used, accounts.freed, ?_, insert_subs accounts.subs⟩
    intro grant new
    rcases List.mem_cons.mp new with rfl | old
    · exact ⟨mm, member, listed⟩
    · exact granted grant old

/-- A pool that gets a block of its own is one that has none. -/
theorem Accounts.ready (accounts : Accounts p s) : Accounts p (s.ready p) := by
  unfold Pool.ready
  split
  · rename_i empty
    have none : s.list = [] := List.length_eq_zero_iff.mp empty
    have used := accounts.used
    have granted := accounts.granted
    rw [none] at used granted
    refine ⟨?_, ?_, p.poolSize_le, ?_, accounts.freed, ?_, accounts.subs⟩
    · simp [Pool.init, none, new_blockInv]
    · simp [Pool.init, none, blockSizes, Node.new]
    · simpa [Pool.init, none, allocatedSizes, Node.allocated, new_allocSlots] using used
    · intro grant member
      obtain ⟨n, block, -⟩ := granted grant member
      cases block
  · exact accounts

theorem new_accounts (p : Params) : Accounts p (Pool.new p) := by
  refine ⟨?_, ?_, p.poolSize_le, ?_, rfl, ?_, ?_⟩
  · simp [Pool.new, Pool.init, new_blockInv]
  · simp [Pool.new, Pool.init, blockSizes, Node.new]
  · simp [Pool.new, Pool.init, allocatedSizes, Node.allocated, new_allocSlots]
  · simp [Pool.new, Pool.init]
  · simp [Pool.new, Pool.init]

/-! ### Growing -/

def Pool.extended (p : Params) (s : Pool) : Pool :=
  { s with
    list := (s.lastId, Node.new (Pool.addMemSz p)) :: s.list
    lastId := s.lastId + 1
    reservedMemCurrent := (s.reservedMemCurrent + Pool.addMemSz p) % 2 ^ 64
    reservedMemHigh := (s.reservedMemCurrent + Pool.addMemSz p) % 2 ^ 64 }

theorem extend_eq (allowed : (p.poolSize + alignedSize) % 2 ^ 64 ≤ p.maxTotalSize) :
    s.extend p alignedSize = some (s.extended p) := by
  unfold Pool.extend
  rw [if_neg (not_lt.mpr allowed)]
  rfl

theorem extended_blockSizes (p : Params) (s : Pool) :
    blockSizes (s.extended p).list = Pool.addMemSz p + blockSizes s.list := by
  simp [Pool.extended, blockSizes, Node.new]

theorem Accounts.extended (accounts : Accounts p s)
    (affordable : s.reservedMemCurrent + Pool.addMemSz p ≤ p.maxTotalSize) :
    Accounts p (s.extended p) := by
  have sum : (s.extended p).reservedMemCurrent = s.reservedMemCurrent + Pool.addMemSz p :=
    Nat.mod_eq_of_lt (affordable.trans_lt p.maxTotalSize_lt)
  refine ⟨?_, ?_, sum.trans_le affordable, ?_, accounts.freed, ?_, accounts.subs⟩
  · intro block member
    rcases List.mem_cons.mp member with rfl | old
    · exact new_blockInv _
    · exact accounts.blocks block old
  · rw [sum, extended_blockSizes, accounts.reserved, Nat.add_comm]
  · simpa [Pool.extended, allocatedSizes, Node.allocated, new_allocSlots] using accounts.used
  · intro grant member
    obtain ⟨n, block, inside⟩ := accounts.granted grant member
    exact ⟨n, List.mem_cons_of_mem _ block, inside⟩

/-- A call of `malloc` finds no slot and extends the pool. -/
def Pool.Extends (p : Params) (s : Pool) (ptr size : Nat) : Prop :=
  (∃ subSize, (s.ready p).db.getSubMem ptr = some subSize)
    ∧ pageAligned p.page size ≤ p.poolSize
    ∧ scan p.poolSize (pageAligned p.page size) (s.ready p).list = .missing
    ∧ (s.ready p).autoExtend = true
    ∧ (p.poolSize + pageAligned p.page size) % 2 ^ 64 ≤ p.maxTotalSize

/-- The pool is as it was, or a pass has found a slot in it. -/
def Served (p : Params) (s : Pool) (ptr size : Nat) (t : Pool) : Prop :=
  t = s ∨ ∃ subSize id slot mm list,
    scan p.poolSize (pageAligned p.page size) s.list = .found id slot mm list
      ∧ t = s.grant ptr size subSize id slot mm list

theorem mallocLoop_one (returns : Pool.mallocLoop p ptr size subSize (pageAligned p.page size) 1 s
    = some t) : Served p s ptr size t := by
  rw [Pool.mallocLoop] at returns
  split at returns
  · cases returns
  · rename_i id slot mm list found
    cases returns
    exact Or.inr ⟨subSize, id, slot, mm, list, found, rfl⟩
  · cases returns
    exact Or.inl rfl

theorem malloc_cases (returns : s.malloc p ptr size = some t) :
    Served p (s.ready p) ptr size t
      ∨ s.Extends p ptr size ∧ Served p ((s.ready p).extended p) ptr size t := by
  unfold Pool.malloc at returns
  simp only at returns
  split at returns
  · cases returns
    exact Or.inl (Or.inl rfl)
  · rename_i subSize handle
    split at returns
    · cases returns
      exact Or.inl (Or.inl rfl)
    · rename_i block
      rw [Pool.mallocLoop] at returns
      split at returns
      · cases returns
      · rename_i id slot mm list found
        cases returns
        exact Or.inl (Or.inr ⟨subSize, id, slot, mm, list, found, rfl⟩)
      · rename_i missing
        rw [if_neg Nat.one_ne_zero] at returns
        split at returns
        · rename_i auto
          -- the check looks at one block and the request, not at what is reserved
          by_cases allowed : (p.poolSize + pageAligned p.page size) % 2 ^ 64 ≤ p.maxTotalSize
          · rw [extend_eq allowed] at returns
            have extends' : s.Extends p ptr size :=
              ⟨⟨subSize, handle⟩, not_lt.mp block, missing, auto, allowed⟩
            exact Or.inr ⟨extends', mallocLoop_one returns⟩
          · rw [Pool.extend, if_pos (not_le.mp allowed)] at returns
            cases returns
            exact Or.inl (Or.inl rfl)
        · exact Or.inl (mallocLoop_one returns)

theorem scan_missing_cons {n : Node} (missing : scan poolSize alignedSize list = .missing)
    (more : list ≠ []) (ends : n.findFree alignedSize ≠ none) :
    scan poolSize alignedSize ((id, n) :: list) ≠ .undefined := by
  rcases scan_cons poolSize alignedSize id n list with later | ⟨slot, -, here⟩ | ⟨stuck, -⟩
  · rw [later, missing]
    nofun
  · rw [here]
    nofun
  · exact absurd stuck (not_or.mpr ⟨ends, more⟩)

theorem ready_list_ne_nil (p : Params) (s : Pool) : (s.ready p).list ≠ [] := by
  unfold Pool.ready
  split
  · simp [Pool.init]
  · rename_i some
    exact fun none => some (List.length_eq_zero_iff.mpr none)

theorem malloc_of_extends (extends' : s.Extends p ptr size) :
    ∃ t, s.malloc p ptr size = some t ∧ Served p ((s.ready p).extended p) ptr size t := by
  obtain ⟨⟨subSize, handle⟩, block, missing, auto, allowed⟩ := extends'
  have calls : s.malloc p ptr size = Pool.mallocLoop p ptr size subSize (pageAligned p.page size) 1
      ((s.ready p).extended p) := by
    simp only [Pool.malloc, handle, if_neg (not_lt.mpr block)]
    rw [Pool.mallocLoop, missing]
    rw [if_neg Nat.one_ne_zero, if_pos auto, extend_eq allowed]
  -- the new block is in front, and the pass ends in it or behind it
  have defined : scan p.poolSize (pageAligned p.page size) ((s.ready p).extended p).list
      ≠ .undefined := by
    apply scan_missing_cons missing (ready_list_ne_nil p s)
    rcases (new_shape (Pool.addMemSz p)).findFree (pageAligned p.page size) with none | ⟨f, -, -, some⟩
    · simp [none]
    · simp [some]
  cases result : Pool.mallocLoop p ptr size subSize (pageAligned p.page size) 1
      ((s.ready p).extended p) with
  | some t => exact ⟨t, calls.trans result, mallocLoop_one result⟩
  | none =>
    rw [Pool.mallocLoop] at result
    split at result
    · rename_i stuck
      exact absurd stuck defined
    · cases result
    · cases result

theorem Accounts.served (accounts : Accounts p s) (served : Served p s ptr size t) :
    Accounts p t := by
  rcases served with rfl | ⟨subSize, id, slot, mm, list, found, rfl⟩
  · exact accounts
  · exact accounts.grant found

theorem Served.reserved (blocks : ∀ block ∈ s.list, BlockInv block.2)
    (served : Served p s ptr size t) :
    t.reservedMemCurrent = s.reservedMemCurrent ∧ blockSizes t.list = blockSizes s.list := by
  rcases served with rfl | ⟨subSize, id, slot, mm, list, found, rfl⟩
  · exact ⟨rfl, rfl⟩
  · obtain ⟨-, sizes, -⟩ := scan_found_blocks blocks found
    unfold Pool.grant
    simp only
    split <;> exact ⟨rfl, sizes⟩

end Xrt.Hip
