import Xrt.Hip.Block

/-!
# A HIP memory pool

`memory_pool` with its blocks, and the part of `memory_database` that it uses. A pointer of the pool
is a handle that stands for a `sub_memory` object, which gets its slot when `malloc` is executed.
-/
namespace Xrt.Hip

open Lib

/-- The `memory` objects: the ones of blocks, and the ones behind handles. -/
inductive MemoryId
  | node (id : Nat)
  | sub (handle : Nat)
deriving DecidableEq, Repr

/-- The parameters of the constructor, and the page size of the machine. -/
structure Params where
  page : Nat
  maxTotalSize : Nat
  poolSize : Nat
  poolSize_le : poolSize ≤ maxTotalSize
  maxTotalSize_lt : maxTotalSize < 2 ^ 64

/-! ### The address database -/

structure Database where
  /-- `m_addr_map`, with the address and the size of each key -/
  addrMap : List (Range × MemoryId)
  /-- `m_sub_mem_cache`: handles, and the sizes of their objects -/
  subMemCache : List (Nat × Nat)
  currStart : Nat

/-- `address_sz_key_compare` -/
def keyLess (a b : Range) : Prop :=
  a.start ≠ b.start
    ∧ ((a.start + a.size) % 2 ^ 64 < 1 ∨ (a.start + a.size) % 2 ^ 64 - 1 < b.start)

instance (a b : Range) : Decidable (keyLess a b) := inferInstanceAs (Decidable (_ ∧ _))

def sameKey (a b : Range) : Bool := !decide (keyLess a b) && !decide (keyLess b a)

namespace Database

variable (db : Database)

def insert (addr size : Nat) (memory : MemoryId) : Database :=
  if db.addrMap.any (fun entry => sameKey entry.1 ⟨addr, size⟩) then db
  else { db with addrMap := (⟨addr, size⟩, memory) :: db.addrMap }

def remove (addr : Nat) : Database :=
  { db with
    subMemCache := db.subMemCache.filter fun entry => entry.1 ≠ addr
    addrMap := db.addrMap.filter fun entry => !sameKey entry.1 ⟨addr, 0⟩ }

def insertSubMem (page size : Nat) : Database :=
  { db with
    subMemCache := (db.currStart, size) :: db.subMemCache
    currStart := (db.currStart + pageAligned page size) % 2 ^ 64 }

def getSubMem (handle : Nat) : Option Nat := db.subMemCache.lookup handle

def getHipMem (addr : Nat) : Option (MemoryId × Nat) :=
  (db.addrMap.find? fun entry => sameKey entry.1 ⟨addr, 0⟩).map
    fun entry => (entry.2, addr - entry.1.start)

end Database

/-! ### The pool -/

structure Pool where
  lastId : Nat
  autoExtend : Bool
  /-- `m_list`, with the `m_id` of each block -/
  list : List (Nat × Node)
  reservedMemCurrent : Nat
  reservedMemHigh : Nat
  usedMemCurrent : Nat
  usedMemHigh : Nat
  db : Database
  /-- the slots that calls of `malloc` allocated for a pointer which the user has not freed: the
  pointer, the block and the slot -/
  granted : List (Nat × Nat × Nat)
  /-- the slots of pointers that the user has freed -/
  freed : List (Nat × Nat)

inductive Scan
  /-- a slot, its block and all blocks after it has been taken -/
  | found (id slot : Nat) (mm : Node) (list : List (Nat × Node))
  | missing
  /-- the iterator is dereferenced at the end of the list, or the search does not end -/
  | undefined

def Scan.behind (block : Nat × Node) : Scan → Scan
  | .found id slot mm list => .found id slot mm (block :: list)
  | .missing => .missing
  | .undefined => .undefined

/-- The inner loop of `malloc`. -/
def scan (poolSize alignedSize : Nat) : List (Nat × Node) → Scan
  | [] => .missing
  | (id, mm) :: rest =>
    -- the size of the first block stands for the size of every block
    if sub64 poolSize mm.used < alignedSize then (scan poolSize alignedSize rest).behind (id, mm)
    else
      match mm.findFree alignedSize with
      | none => .undefined
      | some (some slot) =>
        .found id slot (mm.take alignedSize slot) ((id, mm.take alignedSize slot) :: rest)
      | some none =>
        -- nothing is found in the last block: the iterator is at the end, and still used
        if rest = [] then .undefined else (scan poolSize alignedSize rest).behind (id, mm)

namespace Pool

variable (p : Params) (s : Pool)

def init : Pool :=
  { s with
    reservedMemCurrent := p.poolSize
    autoExtend := if p.poolSize = p.maxTotalSize then false else s.autoExtend
    list := s.list ++ [(s.lastId, Node.new p.poolSize)]
    lastId := s.lastId + 1 }

/-- The constructor. -/
def new : Pool := init p
  { lastId := 0
    autoExtend := true
    list := []
    reservedMemCurrent := 0
    reservedMemHigh := 0
    usedMemCurrent := 0
    usedMemHigh := 0
    db := ⟨[], [], pageAligned p.page 0x10000⟩
    granted := []
    freed := [] }

/-- The size of a block that extends the pool. -/
def addMemSz : Nat :=
  let left := p.maxTotalSize - p.poolSize
  if left ≥ p.poolSize then p.poolSize else left

def extend (alignedSize : Nat) : Option Pool :=
  -- what is already reserved is not looked at
  if (p.poolSize + alignedSize) % 2 ^ 64 > p.maxTotalSize then none
  else
    let reserved := (s.reservedMemCurrent + addMemSz p) % 2 ^ 64
    some { s with
      list := (s.lastId, Node.new (addMemSz p)) :: s.list
      lastId := s.lastId + 1
      reservedMemCurrent := reserved
      reservedMemHigh := reserved }

/-- What `malloc` does with the slot of a pass: the accounts, and the entry in the database unless
`sub_memory::init` throws because the slot is too small. -/
def grant (ptr size subSize id slot : Nat) (mm : Node) (list : List (Nat × Node)) : Pool :=
  let allocSlot := mm.slots slot
  let used := (s.usedMemCurrent + allocSlot.size) % 2 ^ 64
  let s := { s with list := list, usedMemCurrent := used, usedMemHigh := used }
  -- the slot stays allocated, and no entry is made for the pointer
  if (size + allocSlot.start) % 2 ^ 64 > mm.memorySize then s
  else { s with
    db := s.db.insert ptr subSize (.sub ptr)
    granted := (ptr, id, slot) :: s.granted }

/-- The outer loop of `malloc`, with the number of passes that are left. -/
def mallocLoop (ptr size subSize alignedSize : Nat) : Nat → Pool → Option Pool
  | 0, s => some s
  | passes + 1, s =>
    match scan p.poolSize alignedSize s.list with
    | .undefined => none
    | .found id slot mm list => some (s.grant ptr size subSize id slot mm list)
    | .missing =>
      if passes = 0 then some s
      -- the first pass has failed
      else if s.autoExtend then
        match s.extend p alignedSize with
        | none => some s
        | some s => mallocLoop ptr size subSize alignedSize passes s
      else mallocLoop ptr size subSize alignedSize passes s

def ready : Pool := if s.list.length = 0 then s.init p else s

/-- `malloc`. It throws, without a change, if the handle is unknown or the size exceeds a block. -/
def malloc (ptr size : Nat) : Option Pool :=
  let s := s.ready p
  match s.db.getSubMem ptr with
  -- not a handle of `insert_sub_mem`
  | none => some s
  | some subSize =>
    let alignedSize := pageAligned p.page size
    if alignedSize > p.poolSize then some s
    else mallocLoop p ptr size subSize alignedSize 2 s

/-- `find_memory_pool_node`: the block with the object behind the address, and the offset. -/
def findMemoryPoolNode (ptr : Nat) : Option (Nat × Node × Nat) :=
  match s.db.getHipMem ptr with
  | none => none
  | some (hipMem, offset) =>
    (s.list.find? fun block => hipMem = .node block.1).map fun block => (block.1, block.2, offset)

/-- The user gives a pointer back. -/
def release (ptr : Nat) : Pool :=
  { s with
    granted := s.granted.filter fun entry => entry.1 ≠ ptr
    freed := s.freed ++ (s.granted.filter fun entry => entry.1 = ptr).map (·.2) }

def free (ptr : Nat) : Option Pool :=
  if ptr = 0 ∨ s.list.length = 0 then some (s.release ptr)
  else do
    let s' ← match s.findMemoryPoolNode ptr with
      -- no block is found: only the entry of the database goes
      | none => pure s
      | some (id, mm, start) =>
        let (sizeFreed, mm') ← mm.free start
        pure { s with
          list := s.list.map fun block => if block.1 = id then (id, mm') else block
          usedMemCurrent := sub64 s.usedMemCurrent sizeFreed }
    pure ({ s' with db := s'.db.remove ptr }.release ptr)

/-- The first block without allocated slots goes. -/
def dropFree : List (Nat × Node) → Option (Nat × List (Nat × Node))
  | [] => none
  | (id, node) :: rest =>
    if node.allocList = none then some (node.memorySize, rest)
    else (dropFree rest).map fun left => (left.1, (id, node) :: left.2)

/-- The loop of `trim_to`; every pass but the last one drops a block. -/
def trimLoop (minBytesToHold : Nat) : Nat → Pool → Pool
  | 0, s => s
  | fuel + 1, s =>
    match dropFree s.list with
    | none => s
    | some (size, list) =>
      let s := { s with list := list, reservedMemCurrent := sub64 s.reservedMemCurrent size }
      if s.reservedMemCurrent ≥ minBytesToHold then trimLoop minBytesToHold fuel s else s

def trimTo (minBytesToHold : Nat) : Pool :=
  if s.reservedMemCurrent < minBytesToHold then s
  else trimLoop minBytesToHold (s.list.length + 1) s

end Pool

inductive PoolEvent
  /-- a handle is made for a later `malloc` -/
  | insertSubMem (size : Nat)
  | malloc (ptr size : Nat)
  | free (ptr : Nat)
  | trimTo (minBytesToHold : Nat)

def poolStep (p : Params) (s : Pool) : PoolEvent → Option Pool
  | .insertSubMem size => some { s with db := s.db.insertSubMem p.page size }
  | .malloc ptr size => s.malloc p ptr size
  | .free ptr => s.free ptr
  | .trimTo minBytesToHold => some (s.trimTo minBytesToHold)

end Xrt.Hip
