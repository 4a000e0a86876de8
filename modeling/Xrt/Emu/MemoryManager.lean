import Mathlib.Data.List.Sort
import Xrt.Lib.Ranges

/-!
# The memory manager of the emulation shims

`MemoryManager` of `common_em`, without child memories: a first-fit allocator over a free list and a
busy list of ranges. Every request may ask for padding on both sides.
-/
namespace Xrt.Emu

open Lib

/-- What the constructor is given; it asserts that the start is aligned. -/
structure MemoryManager where
  size : Nat
  start : Nat
  alignment : Nat
  positive : 0 < alignment
  aligned : start % alignment = 0
  fits : start + size < 2 ^ 64

/-- The fields that change. -/
structure State where
  freeBufferList : List Range
  busyBufferList : List Range
  freeSize : Nat
deriving DecidableEq, Repr

/-- `mNull` -/
def null : Nat := 0xffffffffffffffff

def coalesceThreshold : Nat := 4

namespace MemoryManager

variable (m : MemoryManager)

def whole : Range := ⟨m.start, m.size⟩

/-- The constructor. -/
def initial : State where
  freeBufferList := [m.whole]
  busyBufferList := []
  freeSize := m.size

/-- `origSize` as `alloc` leaves it behind. -/
def roundedSize (origSize : Nat) : Nat :=
  let origSize := if origSize = 0 then m.alignment else origSize
  let modSize := origSize % m.alignment
  let pad := if modSize > 0 then m.alignment - modSize else 0
  (origSize + pad) % 2 ^ 64

/-- The size that `alloc` looks for. The product `2*paddingFactor` has 32 bits. -/
def allocSize (origSize paddingFactor : Nat) : Nat :=
  let size := m.roundedSize origSize
  (size + 2 * paddingFactor % 2 ^ 32 * size) % 2 ^ 64

end MemoryManager

/-- The loop of `alloc` over the free list: the address, and the list that is left. -/
def firstFit (size : Nat) : List Range → Option (Nat × List Range)
  | [] => none
  | r :: rs =>
    -- too small
    if r.size < size then (firstFit size rs).map fun found => (found.1, r :: found.2)
    -- the rest of a larger range stays at its place in the list
    else if r.size > size then some (r.start, ⟨r.start + size, r.size - size⟩ :: rs)
    else some (r.start, rs)

/-- The order of `std::pair`. -/
def pairLe (r s : Range) : Prop := r.start < s.start ∨ r.start = s.start ∧ r.size ≤ s.size

instance : DecidableRel pairLe := fun _ _ => inferInstanceAs (Decidable (_ ∨ _))

/-- The loop of `coalesce`. -/
def coalesceFrom (curr : Range) : List Range → List Range
  | [] => [curr]
  | next :: rest =>
    -- a range is written out when the next one does not begin at its end
    if curr.start + curr.size ≠ next.start then curr :: coalesceFrom next rest
    else coalesceFrom ⟨curr.start, curr.size + next.size⟩ rest

def coalesce (freeBufferList : List Range) : List Range :=
  match freeBufferList.insertionSort pairLe with
  | [] => []
  | curr :: rest => coalesceFrom curr rest

namespace MemoryManager

variable (m : MemoryManager)

/-- The address, the size that is left in the argument, and the new state. -/
def alloc (s : State) (origSize paddingFactor : Nat) : Nat × Nat × State :=
  let size := m.allocSize origSize paddingFactor
  match firstFit size s.freeBufferList with
  | none => (null, m.roundedSize origSize, s)
  | some (result, left) =>
    (result, m.roundedSize origSize,
      { freeBufferList := left
        busyBufferList := s.busyBufferList ++ [⟨result, size⟩]
        freeSize := (s.freeSize + 2 ^ 64 - size) % 2 ^ 64 })

def free (s : State) (buf : Nat) : State :=
  match s.busyBufferList.find? (·.start = buf) with
  | none => s
  | some r =>
    -- the list is only put in order when it has grown long
    let freeBufferList := s.freeBufferList ++ [r]
    { freeBufferList :=
        if freeBufferList.length > coalesceThreshold then coalesce freeBufferList
        else freeBufferList
      busyBufferList := s.busyBufferList.eraseP (·.start = buf)
      freeSize := (s.freeSize + r.size) % 2 ^ 64 }

def reset : State where
  freeBufferList := [m.whole]
  busyBufferList := []
  freeSize := 0

/-- The size of a request without padding, in unbounded arithmetic. -/
def rounded (origSize : Nat) : Nat :=
  ((if origSize = 0 then m.alignment else origSize) + m.alignment - 1) / m.alignment * m.alignment

/-- The size of a request with its padding on both sides, in unbounded arithmetic. -/
def paddedSize (origSize paddingFactor : Nat) : Nat :=
  m.rounded origSize + 2 * paddingFactor * m.rounded origSize

/-- A request whose padded size has 64 bits. -/
structure Request where
  origSize : Nat
  paddingFactor : Nat
  factor : paddingFactor < 2 ^ 32
  fits : m.paddedSize origSize paddingFactor < 2 ^ 64

inductive Event
  | alloc (request : m.Request)
  | free (buf : Nat)
  | reset

def step (s : State) : m.Event → Option State
  | .alloc r => some (m.alloc s r.origSize r.paddingFactor).2.2
  | .free buf => some (free s buf)
  | .reset => some m.reset

end MemoryManager

end Xrt.Emu
