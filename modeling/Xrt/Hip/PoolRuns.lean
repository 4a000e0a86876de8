import Xrt.Hip.PoolAccounts

/-!
# Runs of a memory pool

The accounts are right in every state of a run exactly if no pointer of the pool is freed and the
pool is extended only while there is room for the block.
-/
namespace Xrt.Hip

open Lib

variable {p : Params} {s t : Pool} {ptr size : Nat} {list list' : List (Nat × Node)}

/-- The reserved amount is that of the blocks and within the limit, the used amount is that of the
allocated slots which the user has not freed. -/
def Pool.Balanced (p : Params) (s : Pool) : Prop :=
  s.reservedMemCurrent = blockSizes s.list ∧ s.reservedMemCurrent ≤ p.maxTotalSize
    ∧ s.usedMemCurrent = s.unfreedSize

/-- A freed pointer gives its slot back to the block and lowers the used amount. -/
def GivesBack (s : Pool) : PoolEvent → Prop
  | .free ptr => ∀ id slot n, (ptr, id, slot) ∈ s.granted → (id, n) ∈ s.list →
    ∃ t, s.free ptr = some t ∧ (∀ n', (id, n') ∈ t.list → slot ∉ n'.allocSlots)
      ∧ t.usedMemCurrent + (n.slots slot).size ≤ s.usedMemCurrent
  | _ => True

/-- The call frees no pointer of the pool, and it does not extend the pool beyond its limit. -/
def Harmless (p : Params) (s : Pool) : PoolEvent → Prop
  | .free ptr => ∀ grant ∈ s.granted, grant.1 ≠ ptr
  | .malloc ptr size => s.Extends p ptr size →
    (s.ready p).reservedMemCurrent + Pool.addMemSz p ≤ p.maxTotalSize
  | _ => True

theorem Accounts.balanced (accounts : Accounts p s) : s.Balanced p :=
  ⟨accounts.reserved, accounts.limit, accounts.used.trans accounts.unfreedSize.symm⟩

/-! ### Freeing -/

/-- The database has no object of a block, so that no block is found. -/
theorem findMemoryPoolNode_of_subs (subs : ∀ entry ∈ s.db.addrMap, ∃ handle, entry.2 = .sub handle)
    (ptr : Nat) : s.findMemoryPoolNode ptr = none := by
  unfold Pool.findMemoryPoolNode Database.getHipMem
  -- the entry of a pointer holds its `sub_memory`, which is no memory of a block
  cases found : s.db.addrMap.find? fun entry => sameKey entry.1 ⟨ptr, 0⟩ with
  | none => rfl
  | some entry =>
    obtain ⟨handle, sub⟩ := subs entry (List.mem_of_find?_eq_some found)
    simp [sub]

/-- A call of `free` changes the database, and nothing else of the pool. -/
theorem free_of_subs (subs : ∀ entry ∈ s.db.addrMap, ∃ handle, entry.2 = .sub handle) (ptr : Nat) :
    s.free ptr = some (s.release ptr)
      ∨ s.free ptr = some ({ s with db := s.db.remove ptr }.release ptr) := by
  unfold Pool.free
  split
  · exact Or.inl rfl
  · right
    rw [findMemoryPoolNode_of_subs subs ptr]
    rfl

section

variable (accounts : Accounts p s)
include accounts

theorem Accounts.release (unknown : ∀ grant ∈ s.granted, grant.1 ≠ ptr) :
    Accounts p (s.release ptr) := by
  have none : s.granted.filter (fun entry => decide (entry.1 = ptr)) = [] := by
    simpa [List.filter_eq_nil_iff] using fun a b c member => unknown (a, b, c) member
  refine ⟨accounts.blocks, accounts.reserved, accounts.limit, accounts.used, ?_, ?_, accounts.subs⟩
  · simp [Pool.release, none, accounts.freed]
  · intro grant member
    exact accounts.granted grant (List.mem_of_mem_filter member)

theorem Accounts.remove (ptr : Nat) : Accounts p { s with db := s.db.remove ptr } :=
  ⟨accounts.blocks, accounts.reserved, accounts.limit, accounts.used, accounts.freed,
    accounts.granted, fun entry member => accounts.subs entry (List.mem_of_mem_filter member)⟩

theorem Accounts.freed_harmless
    (unknown : ∀ grant ∈ s.granted, grant.1 ≠ ptr) (returns : s.free ptr = some t) :
    Accounts p t := by
  rcases free_of_subs accounts.subs ptr with kept | removed
  · cases kept.symm.trans returns
    exact accounts.release unknown
  · cases removed.symm.trans returns
    exact (accounts.remove ptr).release unknown

/-- The slot of a freed pointer stays allocated. -/
theorem Accounts.not_givesBack
    (known : ¬ ∀ grant ∈ s.granted, grant.1 ≠ ptr) : ¬ GivesBack s (.free ptr) := by
  simp only [not_forall, not_not] at known
  obtain ⟨⟨_, id, slot⟩, member, rfl⟩ := known
  obtain ⟨n, block, allocated⟩ := accounts.granted _ member
  intro back
  obtain ⟨t, returns, gone, -⟩ := back id slot n member block
  -- in either case the list of blocks is the one before the call
  rcases free_of_subs accounts.subs _ with kept | removed
  · cases kept.symm.trans returns
    exact gone n block allocated
  · cases removed.symm.trans returns
    exact gone n block allocated

end

/-! ### Trimming -/

theorem dropFree_spec (dropped : Pool.dropFree list = some (size, list')) :
    ∃ before id n after, list = before ++ (id, n) :: after ∧ list' = before ++ after
      ∧ n.allocList = none ∧ size = n.memorySize := by
  induction list generalizing list' with
  | nil => cases dropped
  | cons block rest ih =>
    obtain ⟨id, n⟩ := block
    rw [Pool.dropFree] at dropped
    split at dropped
    · rename_i free
      cases dropped
      exact ⟨[], id, n, rest, rfl, rfl, free, rfl⟩
    · obtain ⟨⟨size', left⟩, deeper, same⟩ := Option.map_eq_some_iff.mp dropped
      cases same
      obtain ⟨before, id', n', after, rfl, rfl, free, sizes⟩ := ih deeper
      exact ⟨(id, n) :: before, id', n', after, rfl, rfl, free, sizes⟩

/-- A block without allocated slots is dropped. -/
theorem Accounts.drop (accounts : Accounts p s) (dropped : Pool.dropFree s.list = some (size, list')) :
    Accounts p { s with
      list := list', reservedMemCurrent := sub64 s.reservedMemCurrent size } := by
  obtain ⟨before, id, n, after, blocks, rfl, free, rfl⟩ := dropFree_spec dropped
  have none : n.allocSlots = [] := by simp [Node.allocSlots, free, Links.toList]
  have reserved := accounts.reserved
  have used := accounts.used
  have limit := accounts.limit
  have below := p.maxTotalSize_lt
  simp only [blocks, blockSizes, List.map_append, List.map_cons, List.sum_append,
    List.sum_cons] at reserved
  have left : sub64 s.reservedMemCurrent n.memorySize = blockSizes (before ++ after) := by
    simp only [sub64, blockSizes, List.map_append, List.sum_append]
    omega
  constructor
  · intro block member
    apply accounts.blocks block
    rw [blocks]
    rcases List.mem_append.mp member with old | old <;> simp [old]
  · exact left
  · rw [left]
    simp only [blockSizes, List.map_append, List.sum_append]
    omega
  · rw [used, blocks]
    simp [allocatedSizes, Node.allocated, none]
  · exact accounts.freed
  · intro grant member
    obtain ⟨m, block, allocated⟩ := accounts.granted grant member
    rw [blocks] at block
    refine ⟨m, ?_, allocated⟩
    rcases List.mem_append.mp block with old | block
    · exact List.mem_append_left _ old
    · rcases List.mem_cons.mp block with same | old
      · -- the block that goes has no allocated slots
        cases same
        rw [none] at allocated
        cases allocated
      · exact List.mem_append_right _ old
  · exact accounts.subs

theorem Accounts.trimLoop (minBytesToHold fuel : Nat) (accounts : Accounts p s) :
    Accounts p (Pool.trimLoop minBytesToHold fuel s) := by
  induction fuel generalizing s with
  | zero => exact accounts
  | succ fuel ih =>
    rw [Pool.trimLoop]
    -- each round drops one block, so there is fuel enough
    cases dropped : Pool.dropFree s.list with
    | none => exact accounts
    | some left =>
      have fewer := accounts.drop dropped
      dsimp only
      split
      · exact ih fewer
      · exact fewer

theorem Accounts.trimTo (accounts : Accounts p s) (minBytesToHold : Nat) :
    Accounts p (s.trimTo minBytesToHold) := by
  unfold Pool.trimTo
  split
  · exact accounts
  · exact accounts.trimLoop ..

/-! ### Whole runs -/

theorem poolStep_accounts {e : PoolEvent} (accounts : Accounts p s) (harmless : Harmless p s e)
    (stepped : poolStep p s e = some t) : Accounts p t := by
  cases e with
  | insertSubMem size =>
    cases stepped
    exact ⟨accounts.blocks, accounts.reserved, accounts.limit, accounts.used, accounts.freed,
      accounts.granted, accounts.subs⟩
  | malloc ptr size =>
    rcases malloc_cases stepped with served | ⟨extends', served⟩
    · exact accounts.ready.served served
    · exact (accounts.ready.extended (harmless extends')).served served
  | free ptr => exact accounts.freed_harmless harmless stepped
  | trimTo minBytesToHold =>
    cases stepped
    exact accounts.trimTo minBytesToHold

theorem Accounts.breaks {e : PoolEvent} (accounts : Accounts p s) (harm : ¬ Harmless p s e) :
    ¬ GivesBack s e ∨ ∃ t, poolStep p s e = some t ∧ ¬ t.Balanced p := by
  cases e with
  | insertSubMem size => exact absurd trivial harm
  | trimTo minBytesToHold => exact absurd trivial harm
  | free ptr => exact Or.inl (accounts.not_givesBack harm)
  | malloc ptr size =>
    obtain ⟨extends', beyond⟩ := Classical.not_imp.mp harm
    obtain ⟨t, returns, served⟩ := malloc_of_extends extends'
    have blocks : ∀ block ∈ ((s.ready p).extended p).list, BlockInv block.2 := by
      intro block member
      rcases List.mem_cons.mp member with rfl | old
      · exact new_blockInv _
      · exact accounts.ready.blocks block old
    obtain ⟨-, sizes⟩ := served.reserved blocks
    refine Or.inr ⟨t, returns, fun balanced => beyond ?_⟩
    have sum := extended_blockSizes p (s.ready p)
    have reserved := accounts.ready.reserved
    have := balanced.1
    have := balanced.2.1
    omega

theorem Accounts.givesBack {e : PoolEvent} (harmless : Harmless p s e) : GivesBack s e := by
  cases e with
  | free ptr => exact fun id slot n member _ => absurd rfl (harmless _ member)
  | _ => trivial

/-- In every run of a pool the accounts are right and freed pointers give their slots back if and
only if no pointer of the pool is freed and the pool is extended within its limit. -/
theorem pool_accounts_iff (p : Params) (es : List PoolEvent) :
    (Always (poolStep p) (Pool.Balanced p) (Pool.new p) es
        ∧ Along (poolStep p) GivesBack (Pool.new p) es)
      ↔ Along (poolStep p) (Harmless p) (Pool.new p) es := by
  apply always_along_iff (P := Accounts p) _ _ _ _ (new_accounts p)
  · exact fun s e t accounts harmless stepped => poolStep_accounts accounts harmless stepped
  · exact fun s accounts => accounts.balanced
  · exact fun s e _ harmless => Accounts.givesBack harmless
  · exact fun s e accounts harm => accounts.breaks harm

def twoBlocks : Params where
  page := 4096
  maxTotalSize := 8192
  poolSize := 4096
  poolSize_le := by decide
  maxTotalSize_lt := by decide

/-- A pointer is made, gets its slot and is freed. -/
def freeRun : List PoolEvent := [.insertSubMem 100, .malloc 69632 100, .free 69632]

/-- Three pointers are made, each of which needs a block. -/
def growRun : List PoolEvent :=
  [.insertSubMem 100, .insertSubMem 100, .insertSubMem 100, .malloc 69632 100, .malloc 73728 100,
    .malloc 77824 100]

/-- The slot of a freed pointer counts as used, and the pool grows beyond its limit. -/
theorem pool_accounts_wrong :
    (∃ t, run (poolStep twoBlocks) (Pool.new twoBlocks) freeRun = some t
        ∧ t.usedMemCurrent = 4096 ∧ t.unfreedSize = 0 ∧ ¬ t.Balanced twoBlocks)
      ∧ ∃ t, run (poolStep twoBlocks) (Pool.new twoBlocks) growRun = some t
        ∧ t.reservedMemCurrent = 12288 ∧ ¬ t.Balanced twoBlocks := by
  constructor
  · refine ⟨_, rfl, rfl, rfl, fun balanced => ?_⟩
    exact absurd balanced.2.2 (by decide)
  · refine ⟨_, rfl, rfl, fun balanced => ?_⟩
    exact absurd balanced.2.1 (by decide)

end Xrt.Hip
