import Xrt.Emu.Partition

/-!
# Requests that fit into the unused memory

The search of `alloc` looks at one free range at a time. While no free range begins where another
one ends, it finds room exactly where the memory has it; ranges that meet are only joined once the
free list has grown beyond the threshold.
-/
namespace Xrt.Emu

open Lib

variable {m : MemoryManager} {s : State} {rs left : List Range} {size a : Nat}

/-- A stretch of the memory that no busy range touches. -/
def Room (m : MemoryManager) (s : State) (size : Nat) : Prop :=
  ∃ a, m.start ≤ a ∧ a + size ≤ m.start + m.size
    ∧ ∀ x, a ≤ x → x < a + size → ∀ r ∈ s.busyBufferList, ¬ r.Has x

/-- No range begins where another one ends. -/
def Merged (rs : List Range) : Prop :=
  ∀ r ∈ rs, ∀ t ∈ rs, r.start < t.start → r.start + r.size ≠ t.start

/-! ### The search -/

variable {r : Range}

theorem Inv.disjoint (inv : Inv m s) {t : Range} (first : r ∈ s.freeBufferList)
    (second : t ∈ s.freeBufferList) (different : r ≠ t) : r.Disjoint t := by
  have symmetric : Std.Symm Range.Disjoint :=
    ⟨fun r t disjoint x both => disjoint x both.symm⟩
  have all := (List.pairwise_append.mp (tiles_iff.mp inv.tiles).1).1
  exact all.forall first second different

/-- An address that is not busy is in a free range. -/
theorem Inv.free_of_not_busy (inv : Inv m s) {x : Nat} (inside : m.whole.Has x)
    (unused : ∀ r ∈ s.busyBufferList, ¬ r.Has x) : ∃ r ∈ s.freeBufferList, r.Has x := by
  obtain ⟨r, member, has⟩ := ((tiles_iff.mp inv.tiles).2 x).mp inside
  rcases List.mem_append.mp member with free | busy
  · exact ⟨r, free, has⟩
  · exact absurd has (unused r busy)

theorem Inv.large_of_room (inv : Inv m s) (merged : Merged s.freeBufferList) (positive : 0 < size)
    (room : Room m s size) : ∃ r ∈ s.freeBufferList, size ≤ r.size := by
  obtain ⟨a, low, high, unused⟩ := room
  have free : ∀ x, a ≤ x → x < a + size → ∃ r ∈ s.freeBufferList, r.Has x := by
    intro x from_a below
    refine inv.free_of_not_busy ⟨?_, ?_⟩ (unused x from_a below)
    · exact low.trans from_a
    · exact below.trans_le high
  obtain ⟨r, member, has⟩ := free a le_rfl (Nat.lt_add_of_pos_right positive)
  refine ⟨r, member, ?_⟩
  by_contra small
  obtain ⟨after, covered⟩ := has
  -- the range ends inside of the stretch, and another one goes on there
  obtain ⟨t, next, begins, ends⟩ := free (r.start + r.size) covered.le (by omega)
  have different : r ≠ t := by
    rintro rfl
    omega
  have disjoint := inv.disjoint member next different (r.start + r.size - 1)
  have meets : r.start + r.size = t.start := by
    simp only [Range.Has] at disjoint
    omega
  exact merged r member t next (by omega) meets

/-! ### What the operations leave of the free list -/

theorem Inv.merged_left (inv : Inv m s) (merged : Merged s.freeBufferList) (positive : 0 < size)
    (found : firstFit size s.freeBufferList = some (a, left)) : Merged left := by
  intro r first t second before meets
  rcases (firstFit_spec found).2.2 r first with old | ⟨start, -, whole⟩
  · rcases (firstFit_spec found).2.2 t second with other | ⟨behind, rest, whole⟩
    · exact merged r old t other before meets
    -- the old range would share the last address of the allocated one
    · have different : r ≠ ⟨a, size + t.size⟩ := by
        rintro rfl
        simp only at meets
        omega
      have disjoint := inv.disjoint old whole different (a + size - 1)
      simp only [Range.Has] at disjoint
      omega
  · rcases (firstFit_spec found).2.2 t second with other | ⟨behind, -, -⟩
    · have begins : a < t.start := by omega
      refine merged _ whole t other begins ?_
      simp only
      omega
    · omega

theorem coalesceFrom_separated {curr : Range} {rest : List Range}
    (order : (curr :: rest).Pairwise fun r t => r.start + r.size ≤ t.start) :
    (coalesceFrom curr rest).Pairwise fun r t => r.start + r.size < t.start := by
  induction rest generalizing curr with
  | nil => exact List.pairwise_singleton ..
  | cons next rest ih =>
    obtain ⟨first, others⟩ := List.pairwise_cons.mp order
    have touches := first next List.mem_cons_self
    rw [coalesceFrom]
    split
    · rename_i gap
      refine List.pairwise_cons.mpr ⟨fun t member => ?_, ih others⟩
      -- what is written out later begins at the next range or behind it
      obtain ⟨u, old, start, -⟩ := coalesceFrom_start t member
      rcases List.mem_cons.mp old with rfl | old
      · omega
      · have := (List.pairwise_cons.mp others).1 u old
        omega
    · rename_i meets
      obtain ⟨second, last⟩ := List.pairwise_cons.mp others
      refine ih (List.pairwise_cons.mpr ⟨fun t member => ?_, last⟩)
      have := second t member
      simp only
      omega

theorem coalesce_merged (disjoint : rs.Pairwise Range.Disjoint) (sized : ∀ r ∈ rs, 0 < r.size) :
    Merged (coalesce rs) := by
  rcases coalesce_eq rs with ⟨-, joined⟩ | ⟨curr, rest, perm, sorted, joined⟩
  · rw [joined]
    exact fun r member => absurd member List.not_mem_nil
  · have apart : (curr :: rest).Pairwise Range.Disjoint :=
      perm.pairwise disjoint fun disjoint x both => disjoint x both.symm
    have order : (curr :: rest).Pairwise fun r t => r.start + r.size ≤ t.start := by
      refine (sorted.and apart).imp_of_mem fun first second both => ?_
      have := both.2.before_or_after (sized _ (perm.mem_iff.mpr first))
        (sized _ (perm.mem_iff.mpr second))
      have := sized _ (perm.mem_iff.mpr second)
      have := both.1
      unfold pairLe at this
      omega
    have either : (coalesceFrom curr rest).Pairwise fun r t =>
        r.start + r.size < t.start ∨ t.start + t.size < r.start :=
      (coalesceFrom_separated order).imp Or.inl
    have symmetric : Std.Symm fun r t : Range =>
        r.start + r.size < t.start ∨ t.start + t.size < r.start := ⟨fun r t => Or.symm⟩
    rw [joined]
    intro r first t second before meets
    have different : r ≠ t := by
      rintro rfl
      omega
    have := either.forall first second different
    omega

/-! ### Runs -/

/-- The range that `free` gives back is joined with its neighbours at once, or it has none. -/
def Joined (m : MemoryManager) (s : State) : m.Event → Prop
  | .free buf => ∀ r, s.busyBufferList.find? (·.start = buf) = some r →
      coalesceThreshold ≤ s.freeBufferList.length
        ∨ ∀ f ∈ s.freeBufferList, f.start + f.size ≠ r.start ∧ r.start + r.size ≠ f.start
  | _ => True

/-- A request for which there is room succeeds. -/
def Served (m : MemoryManager) (s : State) : m.Event → Prop
  | .alloc r => Room m s (m.paddedSize r.origSize r.paddingFactor) →
      (m.alloc s r.origSize r.paddingFactor).1 ≠ null
  | _ => True

structure Kept (m : MemoryManager) (s : State) : Prop where
  inv : Inv m s
  sized : ∀ r ∈ s.freeBufferList ++ s.busyBufferList, 0 < r.size

theorem kept_whole (nonempty : 0 < m.size) (freeSize : Nat) :
    Kept m ⟨[m.whole], [], freeSize⟩ := by
  refine ⟨inv_whole m freeSize, fun r member => ?_⟩
  have same : r = m.whole := by simpa using member
  rw [same]
  exact nonempty

theorem merged_singleton (r : Range) : Merged [r] := by
  intro t first u second before
  rw [List.mem_singleton.mp first, List.mem_singleton.mp second] at before
  exact absurd before (lt_irrefl _)

theorem merged_concat (merged : Merged rs)
    (apart : ∀ f ∈ rs, f.start + f.size ≠ r.start ∧ r.start + r.size ≠ f.start) :
    Merged (rs ++ [r]) := by
  intro t first u second before
  simp only [List.mem_append, List.mem_singleton] at first second
  rcases first with first | rfl <;> rcases second with second | rfl
  · exact merged t first u second before
  · exact (apart t first).1
  · exact (apart u second).2
  · exact absurd before (lt_irrefl _)

theorem Kept.alloc (kept : Kept m s) (r : m.Request) :
    Kept m (m.alloc s r.origSize r.paddingFactor).2.2 := by
  refine ⟨alloc_inv kept.inv r, ?_⟩
  cases found : firstFit (m.allocSize r.origSize r.paddingFactor) s.freeBufferList with
  | none =>
    rw [alloc_of_none found]
    exact kept.sized
  | some result =>
    rw [alloc_of_some found]
    intro t member
    simp only [List.mem_append, List.mem_singleton] at member
    rcases member with remains | busy | rfl
    · rcases (firstFit_spec found).2.2 t remains with old | ⟨-, rest, -⟩
      · exact kept.sized t (List.mem_append_left _ old)
      · exact rest
    · exact kept.sized t (List.mem_append_right _ busy)
    · exact MemoryManager.allocSize_pos r

variable {buf : Nat} {s' : State} {e : m.Event}

/-- The ranges that `free` puts into its list. -/
theorem Kept.given (kept : Kept m s) (found : s.busyBufferList.find? (·.start = buf) = some r) :
    (∀ t ∈ s.freeBufferList ++ [r], 0 < t.size)
      ∧ (s.freeBufferList ++ [r]).Pairwise Range.Disjoint := by
  have moved : (s.freeBufferList ++ s.busyBufferList).Perm
      ((s.freeBufferList ++ [r]) ++ s.busyBufferList.eraseP (·.start = buf)) := by
    rw [List.append_assoc]
    exact (perm_of_find found).append_left _
  constructor
  · exact fun t member => kept.sized t (moved.mem_iff.mpr (List.mem_append_left _ member))
  · exact (List.pairwise_append.mp (moved.pairwise (tiles_iff.mp kept.inv.tiles).1
      fun disjoint x both => disjoint x both.symm)).1

theorem Kept.free (kept : Kept m s) (buf : Nat) : Kept m (MemoryManager.free s buf) := by
  refine ⟨free_inv kept.inv buf, ?_⟩
  unfold MemoryManager.free
  cases found : s.busyBufferList.find? (·.start = buf) with
  | none => exact kept.sized
  | some r =>
    intro t member
    rcases List.mem_append.mp member with free | busy
    · simp only at free
      split at free
      · obtain ⟨u, old, -, large⟩ := coalesce_start t free
        exact ((kept.given found).1 u old).trans_le large
      · exact (kept.given found).1 t free
    · exact kept.sized t (List.mem_append_right _
        ((perm_of_find found).mem_iff.mpr (List.mem_cons_of_mem r busy)))

theorem Kept.step (nonempty : 0 < m.size) (kept : Kept m s)
    (stepped : m.step s e = some s') : Kept m s' := by
  cases e with
  | alloc r =>
    cases stepped
    exact kept.alloc r
  | free buf =>
    cases stepped
    exact kept.free buf
  | reset =>
    cases stepped
    exact kept_whole nonempty 0

theorem Kept.merged_free (kept : Kept m s) (merged : Merged s.freeBufferList)
    (joined : Joined m s (.free buf)) : Merged (MemoryManager.free s buf).freeBufferList := by
  unfold MemoryManager.free
  cases found : s.busyBufferList.find? (·.start = buf) with
  | none => exact merged
  | some r =>
    simp only
    split
    · exact coalesce_merged (kept.given found).2 (kept.given found).1
    · rename_i short
      refine merged_concat merged ((joined r found).resolve_left fun many => short ?_)
      rw [List.length_append, List.length_singleton]
      exact Nat.lt_succ_of_le many

theorem Kept.merged_step (kept : Kept m s)
    (merged : Merged s.freeBufferList) (joined : Joined m s e) (stepped : m.step s e = some s') :
    Merged s'.freeBufferList := by
  cases e with
  | alloc r =>
    cases stepped
    cases found : firstFit (m.allocSize r.origSize r.paddingFactor) s.freeBufferList with
    | none =>
      rw [alloc_of_none found]
      exact merged
    | some result =>
      rw [alloc_of_some found]
      exact kept.inv.merged_left merged (MemoryManager.allocSize_pos r) found
  | free buf =>
    cases stepped
    exact kept.merged_free merged joined
  | reset =>
    cases stepped
    exact merged_singleton m.whole

theorem Kept.served (kept : Kept m s) (merged : Merged s.freeBufferList) (e : m.Event) :
    Served m s e := by
  cases e with
  | alloc r =>
    intro room
    have positive := MemoryManager.allocSize_pos r
    -- the size that is looked for may have lost some padding, but it has not grown
    have less : m.allocSize r.origSize r.paddingFactor
        ≤ m.paddedSize r.origSize r.paddingFactor := by
      rw [MemoryManager.allocSize_eq, MemoryManager.paddedSize]
      gcongr
      exact Nat.mod_le ..
    obtain ⟨t, member, large⟩ := kept.inv.large_of_room merged (positive.trans_le less) room
    cases found : firstFit (m.allocSize r.origSize r.paddingFactor) s.freeBufferList with
    | none => exact absurd (less.trans large) (firstFit_none_iff.mp found t member).not_ge
    | some result =>
      rw [alloc_of_some found]
      exact kept.inv.found_ne_null positive found
  | free buf => trivial
  | reset => trivial

theorem served_of_empty (empty : m.size = 0) (s : State) (e : m.Event) : Served m s e := by
  cases e with
  | alloc r =>
    rintro ⟨a, low, high, -⟩
    have : 0 < m.paddedSize r.origSize r.paddingFactor :=
      Nat.add_pos_left (m.rounded_pos r.origSize) _
    omega
  | free buf => trivial
  | reset => trivial

/-- From a reachable state in which no free range begins where another one ends, every request for
which there is room succeeds, as long as each range that is given back is joined with its
neighbours. -/
theorem served_of_joined (m : MemoryManager) (es more : List m.Event) (s : State)
    (ran : run m.step m.initial es = some s) (merged : Merged s.freeBufferList)
    (joined : Along m.step (Joined m) s more) : Along m.step (Served m) s more := by
  rcases Nat.eq_zero_or_pos m.size with empty | nonempty
  · exact along_of_along (P := fun _ => True) (fun _ _ _ _ _ _ => trivial)
      (fun s e _ _ => served_of_empty empty s e) trivial joined
  · have kept : Kept m s := run_invariant (fun s e t kept stepped => kept.step nonempty stepped)
      (kept_whole nonempty m.size) ran
    refine along_of_along (P := fun s => Kept m s ∧ Merged s.freeBufferList) ?_ ?_
      ⟨kept, merged⟩ joined
    · intro s e t both joined stepped
      exact ⟨both.1.step nonempty stepped, both.1.merged_step both.2 joined stepped⟩
    · exact fun s e both _ => both.1.served both.2 e

def pages (count : Nat) (one_or_two : count = 1 ∨ count = 2) : twoPages.Request where
  origSize := 4096 * count
  paddingFactor := 0
  factor := Nat.two_pow_pos 32
  fits := by
    rcases one_or_two with rfl | rfl <;> decide

def eightPages : MemoryManager where
  size := 32768
  start := 0
  alignment := 4096
  positive := twoPages.positive
  aligned := twoPages.aligned
  fits := by decide

def someOfEight (count : Nat) (few : count ≤ 8) : eightPages.Request where
  origSize := 4096 * count
  paddingFactor := 0
  factor := Nat.two_pow_pos 32
  fits := by
    interval_cases count <;> decide

/-- Every second one of eight pages is freed. The next one that is freed lies between two free ranges
and is joined with them, and the pages are found for a request of three. -/
theorem eight_pages_served :
    let onePage := someOfEight 1 (by decide)
    ∃ s, run eightPages.step eightPages.initial
        (List.replicate 8 (.alloc onePage) ++ [.free 0, .free 8192, .free 16384, .free 24576]) = some s
      ∧ Along eightPages.step (Served eightPages) s
        [.free 4096, .alloc (someOfEight 3 (by decide)), .free 0, .alloc onePage] := by
  intro onePage
  let s : State := ⟨[⟨0, 4096⟩, ⟨8192, 4096⟩, ⟨16384, 4096⟩, ⟨24576, 4096⟩],
    [⟨4096, 4096⟩, ⟨12288, 4096⟩, ⟨20480, 4096⟩, ⟨28672, 4096⟩], 16384⟩
  have ran : run eightPages.step eightPages.initial
      (List.replicate 8 (.alloc onePage) ++ [.free 0, .free 8192, .free 16384, .free 24576])
      = some s := by decide
  have merged : Merged s.freeBufferList := by
    unfold Merged
    decide
  refine ⟨s, ran, served_of_joined eightPages _ _ s ran merged ?_⟩
  refine along_cons rfl (fun _ _ => Or.inl (by decide)) (along_cons rfl trivial
    (along_cons rfl ?_ (along_cons rfl trivial trivial)))
  rintro r ⟨⟩
  exact Or.inr (by decide)

/-- Two pages are allocated and freed again. Nothing is busy, and all of the memory is refused. -/
theorem freed_pages_refused :
    ∃ s, run twoPages.step twoPages.initial [.alloc (pages 1 (.inl rfl)),
        .alloc (pages 1 (.inl rfl)), .free 0, .free 4096] = some s
      ∧ s.busyBufferList = [] ∧ s.freeSize = twoPages.size
      ∧ Room twoPages s (twoPages.paddedSize twoPages.size 0)
      ∧ (twoPages.alloc s twoPages.size 0).1 = null
      ∧ ¬ Served twoPages s (.alloc (pages 2 (.inr rfl))) := by
  have room : Room twoPages ⟨[⟨0, 4096⟩, ⟨4096, 4096⟩], [], 8192⟩
      (twoPages.paddedSize twoPages.size 0) :=
    ⟨0, le_rfl, by decide, fun x _ _ r member => absurd member List.not_mem_nil⟩
  refine ⟨⟨[⟨0, 4096⟩, ⟨4096, 4096⟩], [], 8192⟩, by decide, rfl, rfl, room, by decide, ?_⟩
  exact fun served => served room (by decide)

end Xrt.Emu
