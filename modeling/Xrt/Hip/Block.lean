import Xrt.Lib.DList
import Xrt.Lib.Ranges

/-!
# Blocks of a HIP memory pool

A `memory_pool_node`: the slots of a block, the list of the free ones and the list of the allocated
ones. Slots are cells of a heap, the lists lead through their `m_prev` and `m_next`.
-/
namespace Xrt.Hip

open Lib

/-- A `memory_pool_slot` but for its pointers. -/
structure Slot where
  start : Nat
  size : Nat
  isFree : Bool
deriving DecidableEq, Repr

structure Node where
  /-- the size of `m_memory` -/
  memorySize : Nat
  used : Nat
  freeList : Option Nat
  allocList : Option Nat
  slots : Nat → Slot
  links : Links Nat
  /-- the number of slots made so far, which are the cells below it -/
  made : Nat

/-- Subtraction of `size_t`. -/
def sub64 (a b : Nat) : Nat := (2 ^ 64 + a - b) % 2 ^ 64

def pageAligned (page size : Nat) : Nat := (size + page) % 2 ^ 64 / page * page

namespace Node

/-- The constructor. -/
def new (size : Nat) : Node where
  memorySize := size
  used := 0
  freeList := some 0
  allocList := none
  slots := fun _ => ⟨0, size, true⟩
  links := ⟨fun _ => none, fun _ => none⟩
  made := 1

variable (n : Node)

def range (x : Nat) : Range := ⟨(n.slots x).start, (n.slots x).size⟩

def setSlot (x : Nat) (slot : Slot) : Node := { n with slots := Function.update n.slots x slot }

/-- The constructor of `memory_pool_slot`: a new cell without neighbours. -/
def makeSlot (start size : Nat) : Node :=
  { n with
    slots := Function.update n.slots n.made ⟨start, size, true⟩
    links := (n.links.setPrev n.made none).setNext n.made none
    made := n.made + 1 }

/-- `dlinkedlist_delete(m_free_list, ...)` -/
def deleteFree (x : Nat) : Node :=
  { n with links := (n.links.delete n.freeList x).1, freeList := (n.links.delete n.freeList x).2 }

/-- `dlinkedlist_insert(m_free_list, ...)` -/
def insertFree (x : Nat) : Node :=
  { n with links := (n.links.insert n.freeList x).1, freeList := (n.links.insert n.freeList x).2 }

def deleteAlloc (x : Nat) : Node :=
  { n with links := (n.links.delete n.allocList x).1, allocList := (n.links.delete n.allocList x).2 }

def insertAlloc (x : Nat) : Node :=
  { n with links := (n.links.insert n.allocList x).1, allocList := (n.links.insert n.allocList x).2 }

/-! ### Allocation -/

/-- The part of `memory_pool::malloc` that divides a slot: the rest is a new slot, which becomes the
head of the free list. -/
def divide (alignedSize allocSlot : Nat) : Node :=
  let slot := n.slots allocSlot
  let freeSlot := n.made
  let n := n.makeSlot (slot.start + alignedSize) (slot.size - alignedSize)
  -- the links of the new slot are empty, so that it becomes the head and ends the list
  let n := match n.links.prev freeSlot with
    | none => { n with freeList := some freeSlot }
    | some p => { n with links := n.links.setNext p (some freeSlot) }
  let n := { n with links := n.links.setPrevOf (n.links.next freeSlot) (some freeSlot) }
  n.setSlot allocSlot { slot with isFree := false, size := alignedSize }

/-- What `memory_pool::malloc` does with a free slot that is large enough. -/
def take (alignedSize slot : Nat) : Node :=
  let n :=
    if (n.slots slot).size > alignedSize then n.divide alignedSize slot
    else
      -- only a slot of exactly this size is taken out of the free list
      let n := n.deleteFree slot
      n.setSlot slot { n.slots slot with isFree := false }
  let n := n.insertAlloc slot
  { n with used := (n.used + (n.slots slot).size) % 2 ^ 64 }

/-- The search of `memory_pool::malloc` in the free list of a block. -/
def findFree (alignedSize : Nat) : Option (Option Nat) :=
  n.links.search (fun x => alignedSize ≤ (n.slots x).size) n.made n.freeList

/-! ### Freeing -/

/-- The first loop of `merge_free_slots`, which goes back as long as slots are free. -/
def mergeStart : Nat → Option Nat → Nat → Option Nat
  | _, none, p1 => some p1
  | 0, some _, _ => none
  | fuel + 1, some p0, p1 =>
    if (n.slots p0).isFree then
      -- the source goes by the list here and takes it for the order of addresses
      if (n.slots p0).start = 0 then some p0 else mergeStart fuel (n.links.prev p0) p0
    else some p1

/-- The second loop of `merge_free_slots`. -/
def mergeNext (n : Node) (p1 : Nat) : Nat → Option Nat → Option Node
  | _, none => some n
  | 0, some _ => none
  | fuel + 1, some p0 =>
    if (n.slots p0).start < n.memorySize ∧ (n.slots p0).isFree then
      let n := n.deleteFree p0
      -- the sizes are added whether or not the slots are adjacent
      let slot := n.slots p1
      let n := n.setSlot p1 { slot with size := slot.size + (n.slots p0).size }
      mergeNext n p1 fuel (n.links.next p0)
    else some n

def mergeFreeSlots (newFreeSlot : Nat) : Option Node := do
  let p1 ← n.mergeStart n.made (some newFreeSlot) newFreeSlot
  mergeNext n p1 n.made (n.links.next p1)

/-- `memory_pool_node::free`: the size freed and the block after it. -/
def free (start : Nat) : Option (Nat × Node) := do
  match ← n.links.search (fun x => (n.slots x).start = start) n.made n.allocList with
  -- an address that no allocated slot begins at
  | none => pure (0, n)
  | some usedSlot =>
    let sizeFreed := (n.slots usedSlot).size
    let n := { n with used := sub64 n.used sizeFreed }
    let n := (n.deleteAlloc usedSlot).insertFree usedSlot
    let n := n.setSlot usedSlot { n.slots usedSlot with isFree := true }
    let n ← n.mergeFreeSlots usedSlot
    pure (sizeFreed, n)

end Node

inductive BlockEvent
  | alloc (size : Nat)
  | free (start : Nat)

def blockStep (page poolSize : Nat) (n : Node) : BlockEvent → Option Node
  | .alloc size =>
    let alignedSize := pageAligned page size
    -- a block is passed over by what is used of it, before its free list is searched
    if alignedSize > poolSize ∨ sub64 poolSize n.used < alignedSize then some n
    else (n.findFree alignedSize).map fun found =>
      match found with
      | none => n
      | some slot => n.take alignedSize slot
  | .free start => (n.free start).map (·.2)

end Xrt.Hip
