import Xrt.Hip.Block

/-!
# The lists of a block

The two lists of a block lead through cells of their own, and the free list never has more than one
of them: dividing a slot makes the rest the only free one, and freeing merges all free slots into the
freed one.
-/
namespace Xrt.Hip

open Lib

variable {n : Node} {fs as before after : List Nat} {x y f : Nat}

/-- The free list has the cells `fs`, the other one the cells `as`. -/
structure Shape (n : Node) (fs as : List Nat) : Prop where
  free : n.links.Chain none n.freeList fs
  alloc : n.links.Chain none n.allocList as
  nodup : (fs ++ as).Nodup
  made : ∀ x ∈ fs ++ as, x < n.made
  flags : ∀ x ∈ fs, (n.slots x).isFree = true
  one : fs.length ≤ 1
  total : ((fs ++ as).map fun x => (n.slots x).size).sum = n.memorySize
  inside : ∀ x ∈ fs ++ as, (n.slots x).start < n.memorySize ∨ n.memorySize = 0
  lone : n.memorySize = 0 → (fs ++ as).length = 1

/-- The number of slots made is fuel enough for both lists. -/
theorem Shape.length_le (shape : Shape n fs as) : fs.length ≤ n.made ∧ as.length ≤ n.made := by
  have subset : fs ++ as ⊆ List.range n.made :=
    fun x member => List.mem_range.mpr (shape.made x member)
  have both := (shape.nodup.subperm subset).length_le
  rw [List.length_append, List.length_range] at both
  omega

theorem Shape.searchAlloc (shape : Shape n fs as) (p : Nat → Bool) :
    n.links.search p n.made n.allocList = some (as.find? p) :=
  shape.alloc.search p shape.length_le.2

theorem new_shape (size : Nat) : Shape (Node.new size) [0] [] where
  free := ⟨rfl, rfl, rfl⟩
  alloc := rfl
  nodup := by simp
  made := by simp [Node.new]
  flags := by simp [Node.new]
  one := le_rfl
  total := by simp [Node.new]
  inside := by
    intro x _
    exact (Nat.eq_zero_or_pos size).symm
  lone := fun _ => rfl

theorem Shape.findFree (shape : Shape n fs as) (alignedSize : Nat) :
    n.findFree alignedSize = some none
      ∨ ∃ f, fs = [f] ∧ alignedSize ≤ (n.slots f).size ∧ n.findFree alignedSize = some (some f) := by
  have found := shape.free.search (fun x => alignedSize ≤ (n.slots x).size) shape.length_le.1
  have one := shape.one
  match fs with
  | [] => exact Or.inl found
  | [f] =>
    by_cases fits : alignedSize ≤ (n.slots f).size
    · exact Or.inr ⟨f, rfl, fits, found.trans (by simp [fits])⟩
    · exact Or.inl (found.trans (by simp [fits]))
  | f :: g :: rest => simp at one

/-! ### Allocation -/

section Take

variable {alignedSize : Nat}

theorem divide_eq (n : Node) (alignedSize slot : Nat) :
    n.divide alignedSize slot = { n with
      slots := Function.update
        (Function.update n.slots n.made ⟨(n.slots slot).start + alignedSize,
          (n.slots slot).size - alignedSize, true⟩)
        slot ⟨(n.slots slot).start, alignedSize, false⟩
      links := (n.links.setPrev n.made none).setNext n.made none
      freeList := some n.made
      made := n.made + 1 } := by
  have prev : ((n.links.setPrev n.made none).setNext n.made none).prev n.made = none :=
    Links.setPrev_prev_self ..
  have next : ((n.links.setPrev n.made none).setNext n.made none).next n.made = none :=
    Links.setNext_next_self ..
  simp only [Node.divide, Node.makeSlot, Node.setSlot, prev, next, Links.setPrevOf]

theorem take_of_lt (n : Node) {alignedSize slot : Nat} (larger : alignedSize < (n.slots slot).size) :
    n.take alignedSize slot = { n with
      slots := Function.update
        (Function.update n.slots n.made ⟨(n.slots slot).start + alignedSize,
          (n.slots slot).size - alignedSize, true⟩)
        slot ⟨(n.slots slot).start, alignedSize, false⟩
      links := (((n.links.setPrev n.made none).setNext n.made none).insert n.allocList slot).1
      allocList := (((n.links.setPrev n.made none).setNext n.made none).insert n.allocList slot).2
      freeList := some n.made
      made := n.made + 1
      used := (n.used + alignedSize) % 2 ^ 64 } := by
  simp only [Node.take, gt_iff_lt, larger, if_true, divide_eq, Node.insertAlloc,
    Function.update_self]

theorem take_of_eq (n : Node) {alignedSize slot : Nat} (same : (n.slots slot).size = alignedSize) :
    n.take alignedSize slot = { n with
      slots := Function.update n.slots slot ⟨(n.slots slot).start, (n.slots slot).size, false⟩
      links := ((n.links.delete n.freeList slot).1.insert n.allocList slot).1
      allocList := ((n.links.delete n.freeList slot).1.insert n.allocList slot).2
      freeList := (n.links.delete n.freeList slot).2
      used := (n.used + alignedSize) % 2 ^ 64 } := by
  simp only [Node.take, gt_iff_lt, same, lt_irrefl, if_false, Node.deleteFree, Node.setSlot,
    Node.insertAlloc, Function.update_self]

theorem Shape.makeSlot_alloc (shape : Shape n fs as) :
    ((n.links.setPrev n.made none).setNext n.made none).Chain none n.allocList as := by
  refine shape.alloc.congr fun y member => ?_
  have old := shape.made y (List.mem_append_right fs member)
  exact ⟨Links.setPrev_prev_of_ne _ _ old.ne, Links.setNext_next_of_ne _ _ old.ne⟩

theorem Shape.take_of_lt (shape : Shape n [f] as) (larger : alignedSize < (n.slots f).size)
    (within : (n.slots f).start + (n.slots f).size ≤ n.memorySize) :
    Shape (n.take alignedSize f) [n.made] (f :: as) := by
  rw [Hip.take_of_lt n larger]
  have small : f < n.made := shape.made f (by simp)
  have fresh : f ∉ as := (List.nodup_cons.mp shape.nodup).1
  have unused : n.made ∉ as := fun member => (shape.made _ (by simp [member])).false
  have others : ∀ y ∈ as, y ≠ f ∧ y ≠ n.made := fun y member =>
    ⟨ne_of_mem_of_not_mem member fresh, ne_of_mem_of_not_mem member unused⟩
  have nodup : as.Nodup := (List.nodup_cons.mp shape.nodup).2
  have apart : n.made ≠ f := small.ne'
  obtain ⟨prev, next⟩ := Links.insert_frame ((n.links.setPrev n.made none).setNext n.made none)
    n.allocList apart (shape.alloc.head_ne unused)
  constructor
  · refine ⟨rfl, prev.trans (Links.setPrev_prev_self ..), ?_⟩
    exact next.trans (Links.setNext_next_self ..)
  · exact shape.makeSlot_alloc.insert nodup fresh
  · simp [fresh, unused, nodup, apart]
  · simp only [List.cons_append, List.nil_append, List.mem_cons]
    rintro y (rfl | rfl | member)
    · exact Nat.lt_succ_self _
    · exact Nat.lt_succ_of_lt small
    · exact Nat.lt_succ_of_lt (shape.made y (by simp [member]))
  · simp [Function.update_of_ne apart]
  · exact le_rfl
  · have rest : as.map (fun y => (Function.update (Function.update n.slots n.made
        ⟨(n.slots f).start + alignedSize, (n.slots f).size - alignedSize, true⟩)
        f ⟨(n.slots f).start, alignedSize, false⟩ y).size) = as.map fun y => (n.slots y).size := by
      apply List.map_congr_left
      intro y member
      rw [Function.update_of_ne (others y member).1, Function.update_of_ne (others y member).2]
    have total := shape.total
    simp only [List.cons_append, List.nil_append, List.map_cons, List.sum_cons, rest,
      Function.update_self, Function.update_of_ne apart] at total ⊢
    omega
  · simp only [List.cons_append, List.nil_append, List.mem_cons]
    rintro y (rfl | rfl | member)
    · simp only [Function.update_of_ne apart, Function.update_self]
      omega
    · simpa using shape.inside y (by simp)
    · simpa [Function.update_of_ne (others y member).1, Function.update_of_ne (others y member).2]
        using shape.inside y (by simp [member])
  · intro zero
    dsimp only at zero
    omega

theorem Shape.take_of_eq (shape : Shape n [f] as) (same : (n.slots f).size = alignedSize) :
    Shape (n.take alignedSize f) [] (f :: as) := by
  rw [Hip.take_of_eq n same]
  obtain ⟨fresh, nodup⟩ := List.nodup_cons.mp shape.nodup
  have slots : ∀ y, (Function.update n.slots f
      ⟨(n.slots f).start, (n.slots f).size, false⟩ y).size = (n.slots y).size
      ∧ (Function.update n.slots f
      ⟨(n.slots f).start, (n.slots f).size, false⟩ y).start = (n.slots y).start := by
    intro y
    by_cases own : y = f
    · subst own
      simp
    · simp [Function.update_of_ne own]
  have lone : n.links.Chain none n.freeList ([] ++ f :: []) := shape.free
  obtain ⟨emptied, -, frame⟩ := lone.delete (by simp)
  have alloc : (n.links.delete n.freeList f).1.Chain none n.allocList as :=
    shape.alloc.congr fun y member => frame y (by simpa using ne_of_mem_of_not_mem member fresh)
  constructor
  · exact emptied
  · exact alloc.insert nodup fresh
  · exact shape.nodup
  · exact shape.made
  · simp
  · simp
  · simpa [slots] using shape.total
  · intro y member
    simpa [slots] using shape.inside y member
  · exact shape.lone

end Take

/-! ### Freeing -/

/-- The block in `free` before the slots are merged. -/
def Node.released (n : Node) (x : Nat) : Node :=
  let n := { n with used := sub64 n.used (n.slots x).size }
  let n := (n.deleteAlloc x).insertFree x
  n.setSlot x { n.slots x with isFree := true }

theorem released_eq (n : Node) (x : Nat) : n.released x = { n with
    used := sub64 n.used (n.slots x).size
    slots := Function.update n.slots x ⟨(n.slots x).start, (n.slots x).size, true⟩
    links := ((n.links.delete n.allocList x).1.insert n.freeList x).1
    freeList := ((n.links.delete n.allocList x).1.insert n.freeList x).2
    allocList := (n.links.delete n.allocList x).2 } := by
  unfold Node.released Node.setSlot Node.insertFree Node.deleteAlloc
  dsimp only

theorem Shape.released (shape : Shape n fs (before ++ x :: after)) :
    (n.released x).links.Chain none (n.released x).freeList (x :: fs)
      ∧ (n.released x).links.Chain none (n.released x).allocList (before ++ after) := by
  have nodup := List.nodup_append.mp shape.nodup
  have perm : (before ++ x :: after).Perm (x :: (before ++ after)) := List.perm_middle
  obtain ⟨gone, left⟩ := List.nodup_cons.mp (perm.nodup nodup.2.1)
  have apart : ∀ y ∈ fs, y ∉ before ++ x :: after := fun y member other =>
    nodup.2.2 y member y other rfl
  have fresh : x ∉ fs := fun member => apart x member (by simp)
  obtain ⟨alloc, -, frame⟩ := shape.alloc.delete nodup.2.1
  have free : (n.links.delete n.allocList x).1.Chain none n.freeList fs :=
    shape.free.congr fun y member => frame y (apart y member)
  refine ⟨free.insert nodup.1 fresh, alloc.congr fun y member => ?_⟩
  apply Links.insert_frame
  · exact ne_of_mem_of_not_mem member gone
  · exact free.head_ne fun other => apart y other (perm.symm.mem_iff.mp (List.mem_cons_of_mem x member))

theorem mergeStart_head {fuel : Nat} (head : n.links.prev x = none) (free : (n.slots x).isFree = true) :
    n.mergeStart (fuel + 1) (some x) x = some x := by
  rw [Node.mergeStart, if_pos free, head]
  split
  · rfl
  · cases fuel <;> rfl

/-- The only other free slot is taken out of the list and its size is added to the freed one. -/
def Node.merged (n : Node) (x f : Nat) : Node :=
  let n := n.deleteFree f
  n.setSlot x { n.slots x with size := (n.slots x).size + (n.slots f).size }

theorem mergeNext_one {fuel : Nat} (next : (n.links.delete n.freeList f).1.next f = none)
    (inside : (n.slots f).start < n.memorySize) (free : (n.slots f).isFree = true) :
    n.mergeNext x (fuel + 1) (some f) = some (n.merged x f) := by
  rw [Node.mergeNext, if_pos ⟨inside, free⟩]
  dsimp only
  have last : ((n.deleteFree f).setSlot x { (n.deleteFree f).slots x with
      size := ((n.deleteFree f).slots x).size + ((n.deleteFree f).slots f).size }).links.next f = none :=
    next
  rw [last]
  cases fuel <;> rfl

theorem merged_eq (n : Node) (x f : Nat) : n.merged x f = { n with
    slots := Function.update n.slots x
      ⟨(n.slots x).start, (n.slots x).size + (n.slots f).size, (n.slots x).isFree⟩
    links := (n.links.delete n.freeList f).1
    freeList := (n.links.delete n.freeList f).2 } := by
  unfold Node.merged Node.setSlot Node.deleteFree
  dsimp only

theorem Shape.of_freed {n' : Node} (shape : Shape n fs (before ++ x :: after))
    (free : n'.links.Chain none n'.freeList [x])
    (alloc : n'.links.Chain none n'.allocList (before ++ after)) (made : n'.made = n.made)
    (memory : n'.memorySize = n.memorySize)
    (slots : n'.slots = Function.update n.slots x ⟨(n.slots x).start,
      (n.slots x).size + (fs.map fun f => (n.slots f).size).sum, true⟩) :
    Shape n' [x] (before ++ after) := by
  have perm : (before ++ x :: after).Perm (x :: (before ++ after)) := List.perm_middle
  have nodup : (x :: (before ++ after)).Nodup := perm.nodup (List.nodup_append.mp shape.nodup).2.1
  have fresh : x ∉ before ++ after := (List.nodup_cons.mp nodup).1
  have known : ∀ y ∈ [x] ++ (before ++ after), y ∈ fs ++ (before ++ x :: after) := fun y member =>
    List.mem_append_right fs (perm.symm.mem_iff.mp member)
  have others : ∀ y ∈ before ++ after, n'.slots y = n.slots y := fun y member =>
    slots ▸ Function.update_of_ne (ne_of_mem_of_not_mem member fresh) ..
  have own : n'.slots x = ⟨(n.slots x).start,
      (n.slots x).size + (fs.map fun f => (n.slots f).size).sum, true⟩ :=
    slots ▸ Function.update_self ..
  constructor
  · exact free
  · exact alloc
  · exact nodup
  · intro y member
    rw [made]
    exact shape.made y (known y member)
  · simp [own]
  · exact le_rfl
  · have rest : (before ++ after).map (fun y => (n'.slots y).size)
        = (before ++ after).map fun y => (n.slots y).size :=
      List.map_congr_left fun y member => by rw [others y member]
    have moved := (perm.map fun y => (n.slots y).size).sum_eq
    have total := shape.total
    rw [List.map_append, List.sum_append, moved, ← memory] at total
    rw [List.singleton_append, List.map_cons, rest, own, ← total]
    simp only [List.map_cons, List.sum_cons]
    omega
  · intro y member
    have old := shape.inside y (known y member)
    have same : (n'.slots y).start = (n.slots y).start := by
      rcases List.mem_cons.mp member with rfl | later
      · rw [own]
      · rw [others y later]
    rwa [same, memory]
  · intro zero
    have lone := shape.lone (memory ▸ zero)
    simp only [List.length_append, List.length_cons, List.length_nil] at lone ⊢
    omega

theorem released_slots (n : Node) (x : Nat) : (n.released x).slots
    = Function.update n.slots x ⟨(n.slots x).start, (n.slots x).size, true⟩ := by
  rw [released_eq]

/-- The loops run on the block in which the slot has changed lists, and the second one from the slot
behind it. -/
theorem Shape.free_eq_mergeNext (shape : Shape n fs (before ++ x :: after)) {start : Nat}
    (found : (before ++ x :: after).find? (fun y => (n.slots y).start = start) = some x) :
    ∃ fuel, n.free start
      = ((n.released x).mergeNext x (fuel + 1) ((n.released x).links.next x)).bind
        fun n' => some ((n.slots x).size, n') := by
  have search := (shape.searchAlloc fun y => (n.slots y).start = start).trans
    (congrArg some found)
  obtain ⟨fuel, made⟩ : ∃ fuel, n.made = fuel + 1 :=
    Nat.exists_eq_add_one.mpr (Nat.zero_lt_of_lt (shape.made x (by simp)))
  have calls : n.free start = ((n.released x).mergeFreeSlots x).bind
      fun n' => some ((n.slots x).size, n') := by
    simp only [Node.free, search]
    rfl
  have cells : (n.released x).made = fuel + 1 := by rw [released_eq, made]
  have first : (n.released x).mergeStart (fuel + 1) (some x) x = some x :=
    mergeStart_head shape.released.1.2.1 (by simp [released_slots])
  refine ⟨fuel, ?_⟩
  simp only [calls, Node.mergeFreeSlots, cells, first]
  rfl

theorem Shape.merge_one (shape : Shape n [f] (before ++ x :: after)) (fuel : Nat) :
    (n.released x).mergeNext x (fuel + 1) ((n.released x).links.next x)
        = some ((n.released x).merged x f)
      ∧ Shape ((n.released x).merged x f) [x] (before ++ after)
      ∧ ((n.released x).merged x f).slots = Function.update n.slots x
        ⟨(n.slots x).start, (n.slots x).size + ([f].map fun f => (n.slots f).size).sum, true⟩ := by
  obtain ⟨free, alloc⟩ := shape.released
  have chain : (n.released x).links.Chain none (n.released x).freeList ([x] ++ f :: []) := free
  obtain ⟨-, -, next, -, last⟩ := free
  obtain ⟨fresh, nodup⟩ := List.nodup_cons.mp shape.nodup
  have apart : f ≠ x := by
    rintro rfl
    exact fresh (by simp)
  obtain ⟨shorter, kept, frame⟩ := chain.delete (by simp [apart.symm])
  have own : (n.released x).slots f = n.slots f := by
    rw [released_slots, Function.update_of_ne apart]
  -- a block that has two slots is not empty
  have inside : (n.slots f).start < n.memorySize := by
    refine (shape.inside f (by simp)).resolve_right fun zero => ?_
    have lone := shape.lone zero
    simp at lone
  have slots : ((n.released x).merged x f).slots = Function.update n.slots x
      ⟨(n.slots x).start, (n.slots x).size + ([f].map fun f => (n.slots f).size).sum, true⟩ := by
    rw [merged_eq]
    rw [own, released_slots, Function.update_self, Function.update_idem]
    simp
  have rest : ((n.released x).merged x f).links.Chain none ((n.released x).merged x f).allocList
      (before ++ after) := by
    refine alloc.congr fun y member => frame y ?_
    have gone : x ∉ before ++ after :=
      (List.nodup_cons.mp ((List.perm_middle.nodup_iff).mp nodup)).1
    have listed : y ∈ before ++ x :: after :=
      List.perm_middle.mem_iff.mpr (List.mem_cons_of_mem x member)
    simp only [List.singleton_append, List.mem_cons, List.not_mem_nil, or_false, not_or]
    exact ⟨ne_of_mem_of_not_mem member gone, ne_of_mem_of_not_mem listed fresh⟩
  refine ⟨?_, shape.of_freed ?_ rest ?_ ?_ slots, slots⟩
  · rw [next]
    apply mergeNext_one (kept.trans last)
    · rw [own, released_eq]
      exact inside
    · rw [own]
      exact shape.flags f (by simp)
  · exact shorter
  all_goals rw [merged_eq, released_eq]

theorem Shape.free_found (shape : Shape n fs (before ++ x :: after)) {start : Nat}
    (found : (before ++ x :: after).find? (fun y => (n.slots y).start = start) = some x) :
    ∃ n', n.free start = some ((n.slots x).size, n') ∧ Shape n' [x] (before ++ after)
      ∧ n'.memorySize = n.memorySize
      ∧ n'.slots = Function.update n.slots x ⟨(n.slots x).start,
        (n.slots x).size + (fs.map fun f => (n.slots f).size).sum, true⟩ := by
  obtain ⟨fuel, calls⟩ := shape.free_eq_mergeNext found
  have one := shape.one
  match fs with
  | [] =>
    obtain ⟨free, alloc⟩ := shape.released
    have last : (n.released x).links.next x = none := free.2.2
    have memory : (n.released x).memorySize = n.memorySize := by rw [released_eq]
    have cells : (n.released x).made = n.made := by rw [released_eq]
    refine ⟨n.released x, ?_, shape.of_freed free alloc cells memory (released_slots n x), memory,
      released_slots n x⟩
    rw [calls, last]
    rfl
  | [f] =>
    obtain ⟨merge, shape', slots⟩ := shape.merge_one fuel
    refine ⟨(n.released x).merged x f, ?_, shape', ?_, slots⟩
    · rw [calls, merge]
      rfl
    · rw [merged_eq, released_eq]
  | f :: g :: rest => simp at one

theorem Shape.free_unknown (shape : Shape n fs as) {start : Nat}
    (unknown : as.find? (fun y => (n.slots y).start = start) = none) :
    n.free start = some (0, n) := by
  have search := (shape.searchAlloc fun y => (n.slots y).start = start).trans
    (congrArg some unknown)
  simp only [Node.free, search]
  rfl

end Xrt.Hip
