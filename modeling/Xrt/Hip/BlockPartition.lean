import Xrt.Hip.BlockShape
import Xrt.Lib.Run

/-!
# When the slots of a block are a partition

Allocations keep the slots of both lists a partition of the block. Freeing keeps it exactly if the
slot that is free begins where the freed one ends, since both are merged in any case.
-/
namespace Xrt.Hip

open Lib

variable {n n' : Node} {fs as before after : List Nat} {x f alignedSize : Nat}

def Node.whole (n : Node) : Range := ⟨0, n.memorySize⟩

/-- The slots of the two lists are pairwise disjoint and cover the block, and no more. -/
def Partitioned (n : Node) : Prop :=
  ∃ fs as, n.links.Chain none n.freeList fs ∧ n.links.Chain none n.allocList as
    ∧ ((fs ++ as).map n.range).Pairwise Range.Disjoint
    ∧ ∀ a, n.whole.Has a ↔ ∃ r ∈ (fs ++ as).map n.range, r.Has a

/-- A slot that is freed while another one is free ends where that one begins. -/
def Adjacent (n : Node) : BlockEvent → Prop
  | .alloc _ => True
  | .free start => ∀ x f,
      n.links.search (fun y => (n.slots y).start = start) n.made n.allocList = some (some x) →
      n.freeList = some f →
      (n.slots f).size = 0 ∨ (n.slots f).start = (n.slots x).start + (n.slots x).size

def BlockInv (n : Node) : Prop :=
  ∃ fs as, Shape n fs as ∧ Tiles ((fs ++ as).map n.range) n.whole

theorem new_blockInv (size : Nat) : BlockInv (Node.new size) := by
  refine ⟨[0], [], new_shape size, fun a => ?_⟩
  change cover [(Node.new size).whole] a = _
  rw [cover_cons, cover_nil, Nat.zero_add]

theorem BlockInv.partitioned (inv : BlockInv n) : Partitioned n := by
  obtain ⟨fs, as, shape, tiles⟩ := inv
  exact ⟨fs, as, shape.free, shape.alloc, tiles_iff.mp tiles⟩

theorem Shape.partitioned_iff (shape : Shape n fs as) :
    Partitioned n ↔ Tiles ((fs ++ as).map n.range) n.whole := by
  constructor
  · rintro ⟨gs, bs, free, alloc, parts⟩
    rw [free.unique shape.free, alloc.unique shape.alloc] at parts
    exact tiles_iff.mpr parts
  · exact fun tiles => BlockInv.partitioned ⟨fs, as, shape, tiles⟩

theorem map_range_congr {cells : List Nat} (same : ∀ y ∈ cells, n'.slots y = n.slots y) :
    cells.map n'.range = cells.map n.range :=
  List.map_congr_left fun y member => by simp only [Node.range, same y member]

/-! ### Allocation -/

theorem take_of_lt_tiles (shape : Shape n [f] as) (larger : alignedSize < (n.slots f).size)
    (tiles : Tiles (([f] ++ as).map n.range) n.whole) :
    Tiles (([n.made] ++ f :: as).map (n.take alignedSize f).range) (n.take alignedSize f).whole := by
  have fresh : f ∉ as := (List.nodup_cons.mp shape.nodup).1
  have apart : n.made ≠ f := (shape.made f (by simp)).ne'
  have rest : as.map (n.take alignedSize f).range = as.map n.range := by
    apply map_range_congr
    intro y member
    have old := shape.made y (by simp [member])
    rw [take_of_lt n larger]
    dsimp only
    rw [Function.update_of_ne (ne_of_mem_of_not_mem member fresh), Function.update_of_ne old.ne]
  have first : (n.take alignedSize f).range f = ⟨(n.slots f).start, alignedSize⟩ := by
    rw [take_of_lt n larger]
    simp [Node.range]
  have second : (n.take alignedSize f).range n.made
      = ⟨(n.slots f).start + alignedSize, (n.slots f).size - alignedSize⟩ := by
    rw [take_of_lt n larger]
    simp [Node.range, Function.update_of_ne apart]
  have memory : (n.take alignedSize f).whole = n.whole := by
    rw [take_of_lt n larger]
    rfl
  rw [memory]
  -- the two parts cover what the slot covered
  refine tiles.congr fun a => ?_
  have whole : alignedSize + ((n.slots f).size - alignedSize) = (n.slots f).size := by omega
  simp only [List.singleton_append, List.map_cons, rest, first, second]
  rw [cover_perm (List.Perm.swap _ _ _), cover_join, whole]
  rfl

theorem take_of_eq_tiles (same : (n.slots f).size = alignedSize)
    (tiles : Tiles (([f] ++ as).map n.range) n.whole) :
    Tiles (([] ++ f :: as).map (n.take alignedSize f).range) (n.take alignedSize f).whole := by
  have ranges : (n.take alignedSize f).range = n.range := by
    funext y
    rw [take_of_eq n same]
    by_cases own : y = f
    · subst own
      simp [Node.range]
    · simp [Node.range, Function.update_of_ne own]
  have memory : (n.take alignedSize f).whole = n.whole := by
    rw [take_of_eq n same]
    rfl
  rw [ranges, memory]
  exact tiles

/-- What an allocation does with a block: the slot found is added to the allocated ones. -/
theorem Shape.take (shape : Shape n [f] as) (fits : alignedSize ≤ (n.slots f).size)
    (tiles : Tiles (([f] ++ as).map n.range) n.whole) :
    ∃ gs, Shape (n.take alignedSize f) gs (f :: as)
      ∧ Tiles ((gs ++ f :: as).map (n.take alignedSize f).range) (n.take alignedSize f).whole := by
  rcases fits.lt_or_eq with larger | same
  · -- a slot that is not empty lies in the block
    have inside : n.whole.Has ((n.slots f).start + (n.slots f).size - 1) := by
      apply tiles.has (r := n.range f) (by simp)
      simp only [Range.Has, Node.range]
      omega
    have within : (n.slots f).start + (n.slots f).size ≤ n.memorySize := by
      have := inside.2
      simp only [Node.whole] at this
      omega
    exact ⟨[n.made], shape.take_of_lt larger within, take_of_lt_tiles shape larger tiles⟩
  · exact ⟨[], shape.take_of_eq same.symm, take_of_eq_tiles same.symm tiles⟩

theorem alloc_blockInv {page poolSize size : Nat} (inv : BlockInv n)
    (stepped : blockStep page poolSize n (.alloc size) = some n') : BlockInv n' := by
  obtain ⟨fs, as, shape, tiles⟩ := inv
  simp only [blockStep] at stepped
  split at stepped
  · cases stepped
    exact ⟨fs, as, shape, tiles⟩
  · rcases shape.findFree (pageAligned page size) with none | ⟨f, rfl, fits, found⟩
    · rw [none] at stepped
      cases stepped
      exact ⟨fs, as, shape, tiles⟩
    · rw [found] at stepped
      cases stepped
      obtain ⟨gs, shape', tiles'⟩ := shape.take fits tiles
      exact ⟨gs, f :: as, shape', tiles'⟩

/-! ### Freeing -/

theorem freed_tiles_iff (shape : Shape n fs (before ++ x :: after))
    (tiles : Tiles ((fs ++ (before ++ x :: after)).map n.range) n.whole)
    (memory : n'.memorySize = n.memorySize)
    (slots : n'.slots = Function.update n.slots x ⟨(n.slots x).start,
      (n.slots x).size + (fs.map fun f => (n.slots f).size).sum, true⟩) :
    Tiles (([x] ++ (before ++ after)).map n'.range) n'.whole
      ↔ ∀ f ∈ fs, (n.slots f).size = 0 ∨ (n.slots f).start = (n.slots x).start + (n.slots x).size := by
  have perm : (before ++ x :: after).Perm (x :: (before ++ after)) := List.perm_middle
  have nodup := perm.nodup (List.nodup_append.mp shape.nodup).2.1
  have fresh : x ∉ before ++ after := (List.nodup_cons.mp nodup).1
  have rest : (before ++ after).map n'.range = (before ++ after).map n.range := by
    apply map_range_congr
    intro y member
    rw [slots, Function.update_of_ne (ne_of_mem_of_not_mem member fresh)]
  have own : n'.range x = ⟨(n.slots x).start,
      (n.slots x).size + (fs.map fun f => (n.slots f).size).sum⟩ := by
    simp [Node.range, slots]
  have same : n'.whole = n.whole := by simp [Node.whole, memory]
  -- what the lists covered before, with the freed slot in front
  have old : ∀ a, cover (fs.map n.range) a + cover (n.range x :: (before ++ after).map n.range) a
      = if n.whole.Has a then 1 else 0 := by
    intro a
    have whole := tiles a
    rw [List.map_append, cover_append, cover_perm (perm.map n.range)] at whole
    exact whole
  rw [same, List.singleton_append, List.map_cons, rest, own]
  have one := shape.one
  match fs with
  | [] =>
    refine iff_of_true (fun a => ?_) (by simp)
    simpa [Node.range] using old a
  | [f] =>
    -- both are covered by the same ranges but for the free slot and the one behind the freed one
    have new : ∀ a, cover (⟨(n.slots x).start, (n.slots x).size + (n.slots f).size⟩
        :: (before ++ after).map n.range) a
        = cover (n.range x :: (before ++ after).map n.range) a
          + if (⟨(n.slots x).start + (n.slots x).size, (n.slots f).size⟩ : Range).Has a then 1 else 0 := by
      intro a
      rw [← cover_join, cover_perm (List.Perm.swap _ _ _), cover_cons]
      rfl
    have had : ∀ a, cover ([f].map n.range) a
        = if (⟨(n.slots f).start, (n.slots f).size⟩ : Range).Has a then 1 else 0 := by
      simp [cover_cons, Node.range]
    have adjacent : (∀ f' ∈ [f], (n.slots f').size = 0
        ∨ (n.slots f').start = (n.slots x).start + (n.slots x).size)
        ↔ ∀ a, (⟨(n.slots f).start, (n.slots f).size⟩ : Range).Has a
          ↔ (⟨(n.slots x).start + (n.slots x).size, (n.slots f).size⟩ : Range).Has a := by
      rw [Range.has_iff_has]
      simp
    -- the free slot and the range added behind the freed one have to be the same addresses
    rw [adjacent]
    simp only [List.map_cons, List.map_nil, List.sum_cons, List.sum_nil, Nat.add_zero]
    refine forall_congr' fun a => ?_
    have before := old a
    rw [new a, ← before, had a]
    split_ifs <;> simp_all <;> omega
  | f :: g :: rest => simp at one

theorem free_cases (shape : Shape n fs as) (start : Nat) :
    n.free start = some (0, n)
        ∧ n.links.search (fun y => (n.slots y).start = start) n.made n.allocList = some none
      ∨ ∃ x before after n', as = before ++ x :: after
        ∧ n.links.search (fun y => (n.slots y).start = start) n.made n.allocList = some (some x)
        ∧ n.free start = some ((n.slots x).size, n') ∧ Shape n' [x] (before ++ after)
        ∧ n'.memorySize = n.memorySize
        ∧ n'.slots = Function.update n.slots x ⟨(n.slots x).start,
          (n.slots x).size + (fs.map fun f => (n.slots f).size).sum, true⟩ := by
  have search := shape.searchAlloc fun y => (n.slots y).start = start
  cases found : as.find? (fun y => (n.slots y).start = start) with
  | none => exact Or.inl ⟨shape.free_unknown found, search.trans (congrArg some found)⟩
  | some x =>
    obtain ⟨-, before, after, rfl, -⟩ := List.find?_eq_some_iff_append.mp found
    obtain ⟨n', returns, shape', memory, slots⟩ := shape.free_found found
    exact Or.inr ⟨x, before, after, n', rfl, search.trans (congrArg some found), returns, shape',
      memory, slots⟩

theorem Shape.adjacent_iff (shape : Shape n fs as) {start : Nat}
    (search : n.links.search (fun y => (n.slots y).start = start) n.made n.allocList
      = some (some x)) :
    Adjacent n (.free start) ↔ ∀ f ∈ fs,
      (n.slots f).size = 0 ∨ (n.slots f).start = (n.slots x).start + (n.slots x).size := by
  have head : ∀ f, f ∈ fs ↔ n.freeList = some f := by
    have free := shape.free
    have one := shape.one
    match fs with
    | [] => simp [show n.freeList = none from free]
    | [g] => simp [free.1, eq_comm]
    | g :: h :: rest => simp at one
  simp only [Adjacent, search, Option.some.injEq, head]
  constructor
  · exact fun all f => all x f rfl
  · rintro all _ f rfl
    exact all f

/-- One call: it is made, and it keeps the partition exactly under the condition. -/
theorem free_blockInv (inv : BlockInv n) (start : Nat) :
    ∃ n', (n.free start).map (·.2) = some n' ∧ (Adjacent n (.free start) → BlockInv n')
      ∧ (¬ Adjacent n (.free start) → ¬ Partitioned n') := by
  obtain ⟨fs, as, shape, tiles⟩ := inv
  rcases free_cases shape start with
    ⟨returns, search⟩ | ⟨x, before, after, n', rfl, search, returns, shape', memory, slots⟩
  · have adjacent : Adjacent n (.free start) := by
      intro x f found
      rw [search] at found
      cases found
    exact ⟨n, by rw [returns]; rfl, fun _ => ⟨fs, as, shape, tiles⟩, fun not => absurd adjacent not⟩
  · have exactly := (freed_tiles_iff shape tiles memory slots).trans (shape.adjacent_iff search).symm
    refine ⟨n', by rw [returns]; rfl, fun adjacent => ?_, fun apart => ?_⟩
    · exact ⟨[x], before ++ after, shape', exactly.mpr adjacent⟩
    · rw [shape'.partitioned_iff, exactly]
      exact apart

theorem blockStep_inv {page poolSize : Nat} {e : BlockEvent} (inv : BlockInv n)
    (met : Adjacent n e) (stepped : blockStep page poolSize n e = some n') : BlockInv n' := by
  cases e with
  | alloc size => exact alloc_blockInv inv stepped
  | free start =>
    obtain ⟨m, made, keeps, -⟩ := free_blockInv inv start
    cases made.symm.trans stepped
    exact keeps met

/-- In every run of allocations and frees on a block the slots are a partition in every state if and
only if no slot is freed while a slot is free elsewhere than right behind it. -/
theorem block_partition_iff (page poolSize size : Nat) (es : List BlockEvent) :
    Always (blockStep page poolSize) Partitioned (Node.new size) es
      ↔ Along (blockStep page poolSize) Adjacent (Node.new size) es := by
  apply always_iff_along_of_made (P := BlockInv) _ _ _ (new_blockInv size)
  · exact fun n e n' inv met stepped => blockStep_inv inv met stepped
  · exact fun n inv => inv.partitioned
  · intro n e inv apart
    cases e with
    | alloc size => exact absurd trivial apart
    | free start =>
      obtain ⟨n', made, -, breaks⟩ := free_blockInv inv start
      exact ⟨n', made, breaks apart⟩

/-- Two slots of a page each are allocated in a block of four pages, and the first one is freed while
the rest of the block behind the second one is free. -/
def apartRun : List BlockEvent := [.alloc 4095, .alloc 4095, .free 0]

/-- The slot of the first allocation now reaches over the second one, which is live. -/
theorem freed_slot_overlaps :
    ∃ n, run (blockStep 4096 16384) (Node.new 16384) apartRun = some n ∧ n.allocList = some 1
      ∧ n.range 1 = ⟨4096, 4096⟩ ∧ n.freeList = some 0 ∧ n.range 0 = ⟨0, 12288⟩
      ∧ ¬ Partitioned n := by
  refine ⟨_, rfl, rfl, rfl, rfl, rfl, ?_⟩
  rintro ⟨fs, as, free, alloc, disjoint, -⟩
  have first : fs = [0] := free.unique ⟨rfl, rfl, rfl⟩
  have second : as = [1] := alloc.unique ⟨rfl, rfl, rfl⟩
  subst first second
  have apart := (List.pairwise_cons.mp disjoint).1 ⟨4096, 4096⟩ (List.mem_cons_self)
  exact apart 4096 (by decide)

end Xrt.Hip
