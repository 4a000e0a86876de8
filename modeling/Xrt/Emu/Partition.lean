import Xrt.Emu.MemoryManager
import Xrt.Lib.Run

/-!
# The lists of the memory manager are a partition

The free and the busy list cover every address of the memory once, whatever is allocated and freed.
An allocation has its whole padded range as long as the padding factor doubled has 32 bits.
-/
namespace Xrt.Emu

open Lib

variable {m : MemoryManager} {s : State} {rs left : List Range} {size a : Nat}

/-! ### Sizes -/

namespace MemoryManager

theorem rounded_mod (m : MemoryManager) (origSize : Nat) : m.rounded origSize % m.alignment = 0 :=
  Nat.mul_mod_left ..

theorem rounded_pos (m : MemoryManager) (origSize : Nat) : 0 < m.rounded origSize := by
  have positive := m.positive
  apply Nat.mul_pos _ positive
  apply Nat.div_pos _ positive
  split <;> omega

theorem round_up {unit n : Nat} (positive : 0 < unit) :
    n + (if n % unit > 0 then unit - n % unit else 0) = (n + unit - 1) / unit * unit := by
  have parts := Nat.div_add_mod n unit
  have below := Nat.mod_lt n positive
  set q := n / unit
  split
  · have whole : (n + unit - 1) / unit = q + 1 := by
      rw [Nat.div_eq_iff positive, Nat.add_mul, Nat.mul_comm q]
      omega
    rw [whole, Nat.add_mul, Nat.mul_comm q]
    omega
  · have whole : (n + unit - 1) / unit = q := by
      rw [Nat.div_eq_iff positive, Nat.mul_comm q]
      omega
    rw [whole, Nat.mul_comm q]
    omega

theorem roundedSize_eq (r : m.Request) : m.roundedSize r.origSize = m.rounded r.origSize := by
  have small : m.rounded r.origSize < 2 ^ 64 := (Nat.le_add_right ..).trans_lt r.fits
  unfold roundedSize
  simp only
  rw [round_up m.positive]
  exact Nat.mod_eq_of_lt small

/-- The size in unbounded arithmetic, but for the product of 32 bits. -/
theorem allocSize_eq (r : m.Request) : m.allocSize r.origSize r.paddingFactor
    = m.rounded r.origSize + 2 * r.paddingFactor % 2 ^ 32 * m.rounded r.origSize := by
  have fits := r.fits
  have less : 2 * r.paddingFactor % 2 ^ 32 * m.rounded r.origSize
      ≤ 2 * r.paddingFactor * m.rounded r.origSize := by
    gcongr
    exact Nat.mod_le ..
  unfold paddedSize at fits
  unfold allocSize
  -- the factor is doubled in 32 bits, everything else in 64
  simp only [roundedSize_eq]
  exact Nat.mod_eq_of_lt (by omega)

theorem allocSize_pos (r : m.Request) : 0 < m.allocSize r.origSize r.paddingFactor := by
  rw [allocSize_eq]
  have := m.rounded_pos r.origSize
  omega

theorem allocSize_mod (r : m.Request) :
    m.allocSize r.origSize r.paddingFactor % m.alignment = 0 := by
  have whole := Nat.dvd_of_mod_eq_zero (m.rounded_mod r.origSize)
  rw [allocSize_eq]
  exact Nat.mod_eq_zero_of_dvd (Nat.dvd_add whole (Dvd.dvd.mul_left whole _))

theorem allocSize_eq_paddedSize_iff (r : m.Request) :
    m.allocSize r.origSize r.paddingFactor = m.paddedSize r.origSize r.paddingFactor
      ↔ r.paddingFactor < 2 ^ 31 := by
  rw [allocSize_eq, paddedSize, Nat.add_left_cancel_iff,
    Nat.mul_left_inj (m.rounded_pos r.origSize).ne']
  omega

end MemoryManager

/-! ### The free list -/

/-- What an allocation leaves of a range. -/
def remainder (size : Nat) (r : Range) : List Range :=
  if r.size > size then [⟨r.start + size, r.size - size⟩] else []

/-- The search ends at a range that is large enough, and what is left of it takes its place. -/
theorem firstFit_split (found : firstFit size rs = some (a, left)) :
    ∃ before r after, rs = before ++ r :: after ∧ r.start = a ∧ size ≤ r.size
      ∧ left = before ++ (remainder size r ++ after) := by
  induction rs generalizing a left with
  | nil => cases found
  | cons r rs ih =>
    rw [firstFit] at found
    split at found
    · obtain ⟨⟨b, more⟩, later, same⟩ := Option.map_eq_some_iff.mp found
      cases same
      obtain ⟨before, t, after, rfl, start, large, rfl⟩ := ih later
      exact ⟨r :: before, t, after, rfl, start, large, rfl⟩
    next enough =>
      refine ⟨[], r, rs, rfl, ?_⟩
      rw [List.nil_append, remainder]
      split at found
      next larger =>
        cases found
        exact ⟨rfl, larger.le, by rw [if_pos larger]; rfl⟩
      next exact_match =>
        cases found
        exact ⟨rfl, not_lt.mp enough, by rw [if_neg exact_match]; rfl⟩

/-- What the loop of `alloc` finds: the allocated range and what is left cover what was free, and a
new range is what is behind the allocated part of one. -/
theorem firstFit_spec (found : firstFit size rs = some (a, left)) :
    (∃ r ∈ rs, r.start = a ∧ size ≤ r.size)
      ∧ (∀ x, cover (⟨a, size⟩ :: left) x = cover rs x)
      ∧ ∀ t ∈ left, t ∈ rs ∨ t.start = a + size ∧ 0 < t.size ∧ ⟨a, size + t.size⟩ ∈ rs := by
  obtain ⟨before, r, after, rfl, rfl, large, rfl⟩ := firstFit_split found
  have parts : ∀ x, cover (⟨r.start, size⟩ :: remainder size r) x = cover [r] x := by
    intro x
    unfold remainder
    split
    · rw [cover_join, Nat.add_sub_cancel' large]
    · rw [show size = r.size by omega]
  refine ⟨⟨r, by simp, rfl, large⟩, fun x => ?_, fun t member => ?_⟩
  · have same := parts x
    simp only [cover_append, cover_cons, cover_nil] at same ⊢
    omega
  · simp only [List.mem_append, List.mem_cons] at member ⊢
    rcases member with old | new | old
    · exact .inl (.inl old)
    · unfold remainder at new
      split at new
      · rw [List.mem_singleton.mp new]
        refine .inr ⟨rfl, Nat.sub_pos_of_lt ‹_›, .inr (.inl ?_)⟩
        rw [Nat.add_sub_cancel' large]
      · cases new
    · exact .inl (.inr (.inr old))

theorem firstFit_none_iff : firstFit size rs = none ↔ ∀ r ∈ rs, r.size < size := by
  induction rs with
  | nil => simp [firstFit]
  | cons r rs ih =>
    rw [firstFit, List.forall_mem_cons]
    split
    · rename_i small
      rw [Option.map_eq_none_iff, ih]
      exact (and_iff_right small).symm
    · rename_i large
      refine iff_of_false ?_ fun all => large all.1
      split <;> simp

theorem coalesceFrom_cover (curr : Range) (rest : List Range) (x : Nat) :
    cover (coalesceFrom curr rest) x = cover (curr :: rest) x := by
  induction rest generalizing curr with
  | nil => rfl
  | cons next rest ih =>
    rw [coalesceFrom]
    split
    -- a gap: the next range begins a new one
    · rw [cover_cons, ih, ← cover_cons]
    -- the ranges meet and become one
    · rename_i meets
      rw [not_not] at meets
      rw [ih, ← cover_join, meets]

/-- Every new range begins where an old one began, and is at least as large. -/
theorem coalesceFrom_start {curr : Range} {rest : List Range} :
    ∀ r ∈ coalesceFrom curr rest, ∃ t ∈ curr :: rest, r.start = t.start ∧ t.size ≤ r.size := by
  induction rest generalizing curr with
  | nil =>
    intro r member
    exact ⟨r, member, rfl, le_rfl⟩
  | cons next rest ih =>
    intro r member
    rw [coalesceFrom] at member
    split at member
    · rcases List.mem_cons.mp member with rfl | member
      · exact ⟨r, List.mem_cons_self, rfl, le_rfl⟩
      · obtain ⟨t, old, same⟩ := ih r member
        exact ⟨t, List.mem_cons_of_mem curr old, same⟩
    · obtain ⟨t, old, start, large⟩ := ih r member
      rcases List.mem_cons.mp old with rfl | old
      · exact ⟨curr, List.mem_cons_self, start, (Nat.le_add_right ..).trans large⟩
      · exact ⟨t, List.mem_cons_of_mem _ (List.mem_cons_of_mem _ old), start, large⟩

/-- The list is sorted, and neighbours are joined. -/
theorem coalesce_eq (rs : List Range) : rs = [] ∧ coalesce rs = []
    ∨ ∃ curr rest, rs.Perm (curr :: rest) ∧ (curr :: rest).Pairwise pairLe
      ∧ coalesce rs = coalesceFrom curr rest := by
  have total : Std.Total pairLe := ⟨fun r t => by unfold pairLe; omega⟩
  have trans : IsTrans Range pairLe := ⟨fun r t u => by unfold pairLe; omega⟩
  have perm := (List.perm_insertionSort pairLe rs).symm
  have sorted := List.pairwise_insertionSort pairLe rs
  unfold coalesce
  cases order : rs.insertionSort pairLe with
  | nil => exact .inl ⟨List.perm_nil.mp (order ▸ perm), rfl⟩
  | cons curr rest => exact .inr ⟨curr, rest, order ▸ perm, order ▸ sorted, rfl⟩

theorem coalesce_cover (rs : List Range) (x : Nat) : cover (coalesce rs) x = cover rs x := by
  rcases coalesce_eq rs with ⟨rfl, joined⟩ | ⟨curr, rest, perm, -, joined⟩
  · rw [joined]
  · rw [joined, coalesceFrom_cover, cover_perm perm]

theorem coalesce_start : ∀ r ∈ coalesce rs, ∃ t ∈ rs, r.start = t.start ∧ t.size ≤ r.size := by
  intro r member
  rcases coalesce_eq rs with ⟨-, joined⟩ | ⟨curr, rest, perm, -, joined⟩
  · rw [joined] at member
    cases member
  · rw [joined] at member
    obtain ⟨t, old, same⟩ := coalesceFrom_start r member
    exact ⟨t, perm.mem_iff.mpr old, same⟩

/-! ### Runs -/

structure Inv (m : MemoryManager) (s : State) : Prop where
  tiles : Tiles (s.freeBufferList ++ s.busyBufferList) m.whole
  aligned : ∀ r ∈ s.freeBufferList ++ s.busyBufferList, r.start % m.alignment = 0

theorem inv_whole (m : MemoryManager) (freeSize : Nat) : Inv m ⟨[m.whole], [], freeSize⟩ := by
  constructor
  · intro a
    simp [cover_cons]
  · intro r member
    have same : r = m.whole := by simpa using member
    rw [same]
    exact m.aligned

theorem Inv.taken (inv : Inv m s) (found : firstFit size s.freeBufferList = some (a, left))
    (whole : size % m.alignment = 0) (freeSize : Nat) :
    Inv m ⟨left, s.busyBufferList ++ [⟨a, size⟩], freeSize⟩ := by
  obtain ⟨⟨r, member, start, -⟩, covers, starts⟩ := firstFit_spec found
  have first : a % m.alignment = 0 := start ▸ inv.aligned r (List.mem_append_left _ member)
  constructor
  · apply inv.tiles.congr
    intro x
    have same := covers x
    simp only [cover_append, cover_cons, cover_nil] at same ⊢
    omega
  · simp only [List.mem_append, List.mem_singleton]
    rintro t (member | member | rfl)
    · rcases starts t member with old | ⟨behind, -, -⟩
      · exact inv.aligned t (List.mem_append_left _ old)
      · rw [behind, Nat.add_mod, first, whole]
        exact Nat.zero_mod _
    · exact inv.aligned t (List.mem_append_right _ member)
    · exact first

theorem alloc_of_none {origSize paddingFactor : Nat}
    (found : firstFit (m.allocSize origSize paddingFactor) s.freeBufferList = none) :
    m.alloc s origSize paddingFactor = (null, m.roundedSize origSize, s) := by
  simp [MemoryManager.alloc, found]

theorem alloc_of_some {origSize paddingFactor : Nat}
    (found : firstFit (m.allocSize origSize paddingFactor) s.freeBufferList = some (a, left)) :
    m.alloc s origSize paddingFactor = (a, m.roundedSize origSize,
      ⟨left, s.busyBufferList ++ [⟨a, m.allocSize origSize paddingFactor⟩],
        (s.freeSize + 2 ^ 64 - m.allocSize origSize paddingFactor) % 2 ^ 64⟩) := by
  simp [MemoryManager.alloc, found]

theorem alloc_inv (inv : Inv m s) (r : m.Request) :
    Inv m (m.alloc s r.origSize r.paddingFactor).2.2 := by
  cases found : firstFit (m.allocSize r.origSize r.paddingFactor) s.freeBufferList with
  | none =>
    rw [alloc_of_none found]
    exact inv
  | some result =>
    rw [alloc_of_some found]
    exact inv.taken found (MemoryManager.allocSize_mod r) _

theorem perm_of_find {r : Range} {buf : Nat} {busy : List Range}
    (found : busy.find? (·.start = buf) = some r) :
    busy.Perm (r :: busy.eraseP (·.start = buf)) := by
  obtain ⟨is, before, after, rfl, others⟩ := List.find?_eq_some_iff_append.mp found
  have passed : ∀ t ∈ before, ¬ decide (t.start = buf) = true := by
    intro t member
    simpa using others t member
  have erased : (r :: after).eraseP (·.start = buf) = after := List.eraseP_cons_of_pos is
  rw [List.eraseP_append_right _ passed, erased]
  exact List.perm_middle

theorem free_inv (inv : Inv m s) (buf : Nat) : Inv m (MemoryManager.free s buf) := by
  unfold MemoryManager.free
  cases found : s.busyBufferList.find? (·.start = buf) with
  | none => exact inv
  | some r =>
    have perm := perm_of_find found
    -- the list to which the range is given back covers the same as the one that is kept
    have same : ∀ x, cover (if (s.freeBufferList ++ [r]).length > coalesceThreshold
        then coalesce (s.freeBufferList ++ [r]) else s.freeBufferList ++ [r]) x
        = cover (s.freeBufferList ++ [r]) x := by
      intro x
      split
      · exact coalesce_cover _ x
      · rfl
    have starts : ∀ t ∈ (if (s.freeBufferList ++ [r]).length > coalesceThreshold
        then coalesce (s.freeBufferList ++ [r]) else s.freeBufferList ++ [r]),
        ∃ u ∈ s.freeBufferList ++ [r], t.start = u.start := by
      intro t member
      split at member
      · obtain ⟨u, old, start, -⟩ := coalesce_start t member
        exact ⟨u, old, start⟩
      · exact ⟨t, member, rfl⟩
    have known : ∀ u ∈ s.freeBufferList ++ [r], u ∈ s.freeBufferList ++ s.busyBufferList := by
      simp only [List.mem_append, List.mem_singleton]
      rintro u (old | rfl)
      · exact Or.inl old
      · exact Or.inr (perm.mem_iff.mpr List.mem_cons_self)
    constructor
    · apply inv.tiles.congr
      intro x
      have moved := cover_perm perm x
      simp only [cover_append, same, cover_cons, cover_nil] at moved ⊢
      omega
    · intro t member
      rcases List.mem_append.mp member with kept | busy
      · obtain ⟨u, old, start⟩ := starts t kept
        rw [start]
        exact inv.aligned u (known u old)
      · exact inv.aligned t (List.mem_append_right _ (perm.mem_iff.mpr (List.mem_cons_of_mem r busy)))

theorem step_inv {s' : State} {e : m.Event} (inv : Inv m s) (stepped : m.step s e = some s') :
    Inv m s' := by
  cases e with
  | alloc r =>
    cases stepped
    exact alloc_inv inv r
  | free buf =>
    cases stepped
    exact free_inv inv buf
  | reset =>
    cases stepped
    exact inv_whole m 0

/-- The two lists are pairwise disjoint ranges that cover the memory. -/
def Partition (m : MemoryManager) (s : State) : Prop :=
  (s.freeBufferList ++ s.busyBufferList).Pairwise Range.Disjoint
    ∧ ∀ a, m.whole.Has a ↔ ∃ r ∈ s.freeBufferList ++ s.busyBufferList, r.Has a

/-- An address that `alloc` returns is aligned and has its padded range in the busy list; a call of
`free` with an unknown address changes nothing. -/
def Right (m : MemoryManager) (s : State) : m.Event → Prop
  | .alloc r =>
    let (result, _, s') := m.alloc s r.origSize r.paddingFactor
    result ≠ null → result % m.alignment = 0
      ∧ ⟨result, m.paddedSize r.origSize r.paddingFactor⟩ ∈ s'.busyBufferList
  | .free buf => (∀ r ∈ s.busyBufferList, r.start ≠ buf) → MemoryManager.free s buf = s
  | .reset => True

/-- Doubling the padding factor does not leave 32 bits, or nothing is free for the request. -/
def Unwrapped (m : MemoryManager) (s : State) : m.Event → Prop
  | .alloc r => r.paddingFactor < 2 ^ 31 ∨ ∀ f ∈ s.freeBufferList,
      f.size < m.rounded r.origSize + 2 * r.paddingFactor % 2 ^ 32 * m.rounded r.origSize
  | _ => True

theorem free_unknown {buf : Nat} (unknown : ∀ r ∈ s.busyBufferList, r.start ≠ buf) :
    MemoryManager.free s buf = s := by
  have none : s.busyBufferList.find? (·.start = buf) = none := by simpa using unknown
  simp [MemoryManager.free, none]

/-- An address that is found is one of the memory, and not the one that means a failure. -/
theorem Inv.found_ne_null (inv : Inv m s) (positive : 0 < size)
    (found : firstFit size s.freeBufferList = some (a, left)) : a ≠ null := by
  obtain ⟨⟨r, member, rfl, large⟩, -, -⟩ := firstFit_spec found
  have inside := inv.tiles.has (List.mem_append_left _ member)
    (Range.has_start (positive.trans_le large))
  have fits := m.fits
  have := inside.2
  simp only [MemoryManager.whole, null] at *
  omega

theorem Inv.busy_iff (inv : Inv m s) (positive : 0 < size) {n : Nat} (long : 0 < n)
    (found : firstFit size s.freeBufferList = some (a, left)) :
    (⟨a, n⟩ : Range) ∈ s.busyBufferList ++ [⟨a, size⟩] ↔ size = n := by
  obtain ⟨⟨r, member, rfl, large⟩, -, -⟩ := firstFit_spec found
  -- a busy range at the address would cover it a second time
  have fresh : (⟨r.start, n⟩ : Range) ∉ s.busyBufferList := by
    intro busy
    have first := cover_pos.mpr ⟨r, member, Range.has_start (positive.trans_le large)⟩
    have second : 0 < cover s.busyBufferList r.start :=
      cover_pos.mpr ⟨⟨r.start, n⟩, busy, Range.has_start long⟩
    have once := inv.tiles r.start
    simp only [cover_append] at once
    split at once <;> omega
  simp [fresh, eq_comm]

theorem right_iff_unwrapped (inv : Inv m s) (e : m.Event) : Right m s e ↔ Unwrapped m s e := by
  cases e with
  | reset => exact Iff.rfl
  | free buf => exact iff_of_true free_unknown trivial
  | alloc r =>
    have positive := MemoryManager.allocSize_pos r
    have long : 0 < m.paddedSize r.origSize r.paddingFactor :=
      Nat.add_pos_left (m.rounded_pos r.origSize) _
    simp only [Right, Unwrapped]
    rw [← MemoryManager.allocSize_eq]
    -- a request that fails promises nothing
    cases found : firstFit (m.allocSize r.origSize r.paddingFactor) s.freeBufferList with
    | none =>
      rw [alloc_of_none found]
      exact iff_of_true (fun some => absurd rfl some) (Or.inr (firstFit_none_iff.mp found))
    | some result =>
      obtain ⟨⟨t, member, start, -⟩, -, -⟩ := firstFit_spec found
      have aligned : result.1 % m.alignment = 0 :=
        start ▸ inv.aligned t (List.mem_append_left _ member)
      have fits : ¬ ∀ f ∈ s.freeBufferList, f.size < m.allocSize r.origSize r.paddingFactor := by
        rw [← firstFit_none_iff, found]
        simp
      rw [alloc_of_some found, or_iff_left fits, ← MemoryManager.allocSize_eq_paddedSize_iff]
      rw [inv.busy_iff positive long found]
      constructor
      · exact fun right => (right (inv.found_ne_null positive found)).2
      · exact fun equal _ => ⟨aligned, equal⟩

/-- In every run the lists are a partition, and allocations and frees do what they should exactly if
no successful request wraps its padding factor. -/
theorem memory_manager_iff (m : MemoryManager) (es : List m.Event) :
    (Always m.step (Partition m) m.initial es ∧ Along m.step (Right m) m.initial es)
      ↔ Along m.step (Unwrapped m) m.initial es := by
  have initial : Inv m m.initial := inv_whole m m.size
  have same : Along m.step (Right m) m.initial es ↔ Along m.step (Unwrapped m) m.initial es := by
    apply along_iff_along (P := Inv m) _ _ initial
    · exact fun s e s' inv _ stepped => step_inv inv stepped
    · exact fun s e inv => right_iff_unwrapped inv e
  have partition : Always m.step (Partition m) m.initial es :=
    always_of_invariant (fun s e s' inv stepped => step_inv inv stepped)
      (fun s inv => tiles_iff.mp inv.tiles) initial es
  exact (and_iff_right partition).trans same

def twoPages : MemoryManager where
  size := 8192
  start := 0
  alignment := 4096
  positive := by decide
  aligned := by decide
  fits := by decide

def widePage : twoPages.Request where
  origSize := 4096
  paddingFactor := 2 ^ 31
  factor := by decide
  fits := by decide

/-- The request succeeds, with a range of one page. -/
theorem wide_padding_dropped :
    (twoPages.alloc twoPages.initial 4096 (2 ^ 31)).1 = 0
      ∧ (twoPages.alloc twoPages.initial 4096 (2 ^ 31)).2.2.busyBufferList = [⟨0, 4096⟩]
      ∧ twoPages.paddedSize 4096 (2 ^ 31) = 4096 * (1 + 2 ^ 32)
      ∧ ¬ Right twoPages twoPages.initial (.alloc widePage) := by
  refine ⟨by decide, by decide, by decide, fun right => ?_⟩
  have busy := (right (by decide)).2
  exact absurd busy (by decide)

end Xrt.Emu
