import Xrt.Emu.Partition

/-!
# Child memories

A memory that stands for a group of others allocates in those, its child memories, as much as each
of them has. What a child has is read off its `freeSize()`, which is the size of its free list unless
it was reset; what it grants is one range.
-/
namespace Xrt.Emu

open Lib

/-- A child memory, which has no children of its own. Its size has 64 bits also when it is rounded
up. -/
structure Child where
  manager : MemoryManager
  small : manager.size + manager.alignment < 2 ^ 64
  state : State

/-- The map of chunks, with the address and the size of each. -/
def record (chunks : List Range) (addr size : Nat) : List Range :=
  chunks.filter (fun r => r.start ≠ addr) ++ [⟨addr, size⟩]

/-- `sizeToBeAllocated` -/
def Child.asked (c : Child) (remainingSize : Nat) : Nat :=
  if c.state.freeSize ≤ remainingSize then c.state.freeSize else remainingSize

/-- The first loop: what the children do not have. -/
def missingSize : Nat → List Child → Nat
  | remainingSize, [] => remainingSize
  | remainingSize, c :: cs => missingSize (remainingSize - c.asked remainingSize) cs

/-- Whether the second loop returns, the address, the chunks and the children. -/
def allocChildren : Nat → Nat → List Range → List Child → Bool × Nat × List Range × List Child
  | _, result, chunks, [] => (false, result, chunks, [])
  | remainingSize, result, chunks, c :: cs =>
    let sizeToBeAllocated := c.asked remainingSize
    let (resultFinal, _, state) := c.manager.alloc c.state sizeToBeAllocated 0
    -- the size that was asked for is recorded, not the one that was allocated
    let chunks := if resultFinal ≠ null then record chunks resultFinal sizeToBeAllocated else chunks
    let result := if result = null then resultFinal else result
    -- a chunk counts whether or not it was granted
    let remainingSize := remainingSize - sizeToBeAllocated
    if remainingSize = 0 then (true, result, chunks, { c with state := state } :: cs)
    else
      let (returned, result, chunks, cs) := allocChildren remainingSize result chunks cs
      (returned, result, chunks, { c with state := state } :: cs)

/-- The address, the chunks, the own state and the children after a call of `alloc`. -/
def MemoryManager.allocGroup (m : MemoryManager) (s : State) (cs : List Child)
    (origSize paddingFactor : Nat) : Nat × List Range × State × List Child :=
  let size := m.allocSize origSize paddingFactor
  let own (result : Nat) (chunks : List Range) (cs : List Child) :=
    match firstFit size s.freeBufferList with
    | none => (result, chunks, s, cs)
    | some _ =>
      let (result, _, s) := m.alloc s origSize paddingFactor
      (result, chunks, s, cs)
  if cs = [] then own null [] cs
  else if missingSize size cs ≠ 0 then (null, [], s, cs)
  else
    match allocChildren size null [] cs with
    | (true, result, chunks, cs) => (result, chunks, s, cs)
    | (false, result, chunks, cs) => own result chunks cs

/-! ### What is right -/

def sizes (rs : List Range) : Nat := (rs.map (·.size)).sum

/-- `freeSize()` is the size of the free list. -/
def State.Counted (s : State) : Prop := s.freeSize = sizes s.freeBufferList

/-- The children have allocated the chunks in the order of the list, each at most one. -/
def Allocated : List Child → List Child → List Range → Prop
  | [], [], chunks => chunks = []
  | c :: cs, c' :: cs', chunks =>
    c' = c ∧ Allocated cs cs' chunks
      ∨ ∃ chunk rest, chunks = chunk :: rest ∧ c'.manager = c.manager
        ∧ c'.state.busyBufferList = c.state.busyBufferList ++ [chunk]
        ∧ (∀ x, cover (chunk :: c'.state.freeBufferList) x = cover c.state.freeBufferList x)
        ∧ Allocated cs cs' rest
  | _, _, _ => False

/-- An address comes with the chunks that were allocated, which make up the request; without one the
children are as before. -/
def GroupRight (m : MemoryManager) (s : State) (cs : List Child) (origSize paddingFactor : Nat) : Prop :=
  match m.allocGroup s cs origSize paddingFactor with
  | (result, chunks, _, cs') =>
    if result = null then cs' = cs
    else Allocated cs cs' chunks ∧ chunks.Pairwise Range.Disjoint
      ∧ sizes chunks = m.paddedSize origSize paddingFactor

/-- Every child that is asked for a part has one range for it, and the part is not to be rounded. -/
def Granting : Nat → List Child → Prop
  | _, [] => True
  | remainingSize, c :: cs => (0 < c.asked remainingSize →
      c.asked remainingSize % c.manager.alignment = 0
        ∧ ∃ r ∈ c.state.freeBufferList, c.asked remainingSize ≤ r.size)
    ∧ (remainingSize - c.asked remainingSize ≠ 0 → Granting (remainingSize - c.asked remainingSize) cs)

/-- No child that is asked has a range for its part, rounded up. -/
def Refusing : Nat → List Child → Prop
  | _, [] => True
  | remainingSize, c :: cs =>
    (∀ r ∈ c.state.freeBufferList, r.size < c.manager.rounded (c.asked remainingSize))
    ∧ (remainingSize - c.asked remainingSize ≠ 0 → Refusing (remainingSize - c.asked remainingSize) cs)

/-! ### The size of the free list -/

variable {m : MemoryManager} {s : State} {rs left : List Range} {size a : Nat}

theorem sizes_cons (r : Range) (rs : List Range) : sizes (r :: rs) = r.size + sizes rs := rfl

theorem sizes_append (rs ss : List Range) : sizes (rs ++ ss) = sizes rs + sizes ss := by
  simp [sizes]

theorem sizes_perm {ss : List Range} (perm : rs.Perm ss) : sizes rs = sizes ss :=
  (perm.map _).sum_eq

theorem firstFit_sizes (found : firstFit size rs = some (a, left)) : sizes rs = size + sizes left := by
  obtain ⟨before, r, after, rfl, -, large, rfl⟩ := firstFit_split found
  have parts : r.size = size + sizes (remainder size r) := by
    unfold remainder
    split
    · exact (Nat.add_sub_cancel' large).symm
    · exact large.antisymm' (not_lt.mp ‹_›)
  rw [sizes_append, sizes_append, sizes_append, sizes_cons, parts]
  omega

theorem coalesce_sizes (rs : List Range) : sizes (coalesce rs) = sizes rs := by
  have from' : ∀ (curr : Range) rest, sizes (coalesceFrom curr rest) = sizes (curr :: rest) := by
    intro curr rest
    induction rest generalizing curr with
    | nil => rfl
    | cons next rest ih =>
      rw [coalesceFrom]
      split
      · rw [sizes_cons, ih, sizes_cons curr]
      · rw [ih]
        simp only [sizes_cons]
        omega
  rcases coalesce_eq rs with ⟨rfl, joined⟩ | ⟨curr, rest, perm, -, joined⟩
  · rw [joined]
  · rw [joined, from', sizes_perm perm]

/-- The lists together have the size of the memory, and `freeSize()` is too small by `d`. -/
structure Full (d : Nat) (m : MemoryManager) (s : State) : Prop where
  bound : s.freeSize < 2 ^ 64
  counted : (s.freeSize + d) % 2 ^ 64 = sizes s.freeBufferList
  total : sizes s.freeBufferList + sizes s.busyBufferList = m.size

variable {d : Nat} {r : Range}

theorem Full.counted_iff (full : Full d m s) : s.Counted ↔ d % 2 ^ 64 = 0 := by
  obtain ⟨bound, counted, total⟩ := full
  have fits := m.fits
  rw [State.Counted]
  omega

theorem full_whole (m : MemoryManager) : Full 0 m m.initial ∧ Full m.size m m.reset := by
  have fits := m.fits
  have size : sizes [m.whole] = m.size := rfl
  refine ⟨⟨?_, ?_, rfl⟩, ⟨Nat.two_pow_pos 64, ?_, rfl⟩⟩
  · exact (Nat.le_add_left m.size m.start).trans_lt fits
  all_goals
    simp only [MemoryManager.initial, MemoryManager.reset, size]
    omega

theorem Full.alloc (full : Full d m s) (origSize paddingFactor : Nat) :
    Full d m (m.alloc s origSize paddingFactor).2.2 := by
  cases found : firstFit (m.allocSize origSize paddingFactor) s.freeBufferList with
  | none =>
    rw [alloc_of_none found]
    exact full
  | some result =>
    obtain ⟨bound, counted, total⟩ := full
    have parts := firstFit_sizes found
    have fits := m.fits
    rw [alloc_of_some found]
    refine ⟨Nat.mod_lt _ (by decide), ?_, ?_⟩
    · dsimp only
      omega
    · dsimp only
      rw [sizes_append, sizes_cons]
      simp only [sizes, List.map_nil, List.sum_nil] at *
      omega

theorem Full.free (full : Full d m s) (buf : Nat) : Full d m (MemoryManager.free s buf) := by
  obtain ⟨bound, counted, total⟩ := full
  have fits := m.fits
  unfold MemoryManager.free
  cases found : s.busyBufferList.find? (·.start = buf) with
  | none => exact ⟨bound, counted, total⟩
  | some r =>
    have moved := sizes_perm (perm_of_find found)
    have longer : sizes (s.freeBufferList ++ [r]) = sizes s.freeBufferList + r.size := by
      rw [sizes_append]
      rfl
    have kept : sizes (if (s.freeBufferList ++ [r]).length > coalesceThreshold
        then coalesce (s.freeBufferList ++ [r]) else s.freeBufferList ++ [r])
        = sizes s.freeBufferList + r.size := by
      split
      · rw [coalesce_sizes, longer]
      · exact longer
    rw [sizes_cons] at moved
    refine ⟨Nat.mod_lt _ (by decide), ?_, ?_⟩ <;> dsimp only <;> rw [kept] <;> omega

def MemoryManager.Event.NoReset : m.Event → Prop
  | .reset => False
  | _ => True

theorem Full.step {t : State} {e : m.Event} (full : Full d m s) (noReset : e.NoReset)
    (stepped : m.step s e = some t) : Full d m t := by
  cases e with
  | alloc r =>
    cases stepped
    exact full.alloc _ _
  | free buf =>
    cases stepped
    exact full.free buf
  | reset => exact absurd noReset id

/-- A state that operations lead to. -/
def Child.Reached (c : Child) : Prop :=
  ∃ es : List c.manager.Event, run c.manager.step c.manager.initial es = some c.state

/-- A state that allocating and freeing lead to. -/
def Unreset (m : MemoryManager) (s : State) : Prop :=
  ∃ es : List m.Event, (∀ e ∈ es, e.NoReset) ∧ run m.step m.initial es = some s

theorem Unreset.full (unreset : Unreset m s) : Full 0 m s := by
  obtain ⟨es, noReset, ran⟩ := unreset
  exact (run_good_iff_forall (P := Full 0 m) (fun _ _ _ full allowed stepped => full.step allowed stepped)
    (fun _ _ _ _ _ _ => (and_self_iff (a := True)).symm) (full_whole m).1 noReset ran).1

theorem Unreset.step {t : State} {e : m.Event} (unreset : Unreset m s) (noReset : e.NoReset)
    (stepped : m.step s e = some t) : Unreset m t := by
  obtain ⟨es, allowed, ran⟩ := unreset
  refine ⟨es ++ [e], by simpa [or_imp, forall_and] using ⟨allowed, noReset⟩, ?_⟩
  rw [run_append, ran, Option.bind_some, run_cons, stepped]
  rfl

/-- `freeSize()` is right until the first reset, and never again after it. -/
theorem Child.Reached.counted_iff {c : Child} (reached : c.Reached) :
    Inv c.manager c.state ∧ (c.state.Counted ↔ Unreset c.manager c.state) := by
  obtain ⟨es, ran⟩ := reached
  have kept : Inv c.manager c.state ∧ (Unreset c.manager c.state
      ∨ 0 < c.manager.size ∧ Full c.manager.size c.manager c.state) := by
    refine run_invariant (P := fun s => Inv c.manager s ∧ (Unreset c.manager s
      ∨ 0 < c.manager.size ∧ Full c.manager.size c.manager s)) ?_
      ⟨inv_whole _ _, Or.inl ⟨[], by simp, rfl⟩⟩ ran
    rintro s e t ⟨inv, which⟩ stepped
    refine ⟨step_inv inv stepped, ?_⟩
    by_cases noReset : e.NoReset
    · exact which.imp (·.step noReset stepped) fun ⟨some', full⟩ => ⟨some', full.step noReset stepped⟩
    · cases e with
      | reset =>
        cases stepped
        rcases Nat.eq_zero_or_pos c.manager.size with none | some'
        · refine Or.inl ⟨[], by simp, ?_⟩
          simp [MemoryManager.initial, MemoryManager.reset, none]
        · exact Or.inr ⟨some', (full_whole _).2⟩
      | _ => exact absurd trivial noReset
  refine ⟨kept.1, fun counted => kept.2.resolve_right ?_, fun unreset => unreset.full.counted_iff.mpr rfl⟩
  rintro ⟨some', full⟩
  have wrapped := full.counted_iff.mp counted
  have fits := c.manager.fits
  omega

/-! ### One child -/

theorem rounded_bounds (m : MemoryManager) (size : Nat) : size ≤ m.rounded size
    ∧ m.rounded size ≤ size + m.alignment
    ∧ (m.rounded size = size ↔ 0 < size ∧ size % m.alignment = 0) := by
  have positive := m.positive
  unfold MemoryManager.rounded
  rw [← MemoryManager.round_up positive]
  by_cases none : size = 0
  · subst none
    simp [positive.ne']
  · have below := Nat.mod_lt size positive
    rw [if_neg none]
    split <;> omega

theorem Child.asked_le (c : Child) (remainingSize : Nat) :
    c.asked remainingSize ≤ remainingSize ∧ c.asked remainingSize ≤ c.state.freeSize := by
  unfold Child.asked
  split <;> omega

section OneChild

variable {c : Child} {remainingSize addr : Nat}

/-- What a child looks for is its part rounded up. -/
theorem Full.allocSize_asked (full : Full 0 c.manager c.state) (remainingSize : Nat) :
    c.manager.allocSize (c.asked remainingSize) 0 = c.manager.rounded (c.asked remainingSize) := by
  have counted := full.counted_iff.mpr rfl
  have total := full.total
  have less := c.asked_le remainingSize
  have small := c.small
  have bounds := rounded_bounds c.manager (c.asked remainingSize)
  rw [State.Counted] at counted
  have fits : c.manager.paddedSize (c.asked remainingSize) 0 < 2 ^ 64 := by
    rw [MemoryManager.paddedSize]
    omega
  have same := MemoryManager.allocSize_eq ⟨c.asked remainingSize, 0, by decide, fits⟩
  simpa using same

theorem le_sizes {r : Range} (member : r ∈ rs) : r.size ≤ sizes rs :=
  List.le_sum_of_mem (List.mem_map_of_mem member)

/-- The child has a range for its part, rounded up. -/
structure Found (c : Child) (part addr : Nat) (left : List Range) : Prop where
  asks : 0 < part
  address : addr ≠ null
  first : c.manager.start ≤ addr
  last : addr + c.manager.rounded part ≤ c.manager.start + c.manager.size
  large : ∃ r ∈ c.state.freeBufferList, c.manager.rounded part ≤ r.size
  covers : ∀ x, cover (⟨addr, c.manager.rounded part⟩ :: left) x = cover c.state.freeBufferList x

theorem Found.part_last {part : Nat} (found : Found c part addr left) :
    addr + part ≤ c.manager.start + c.manager.size :=
  (Nat.add_le_add_left (rounded_bounds ..).1 addr).trans found.last

/-- A child that finds a range was asked for a part. -/
theorem Full.found (full : Full 0 c.manager c.state) (inv : Inv c.manager c.state)
    (some' : 0 < remainingSize)
    (found : firstFit (c.manager.rounded (c.asked remainingSize)) c.state.freeBufferList
      = some (addr, left)) :
    Found c (c.asked remainingSize) addr left := by
  have positive := c.manager.rounded_pos (c.asked remainingSize)
  have address := inv.found_ne_null positive found
  obtain ⟨⟨t, own, rfl, fit⟩, covers, -⟩ := firstFit_spec found
  have inside := inv.tiles.inside (List.mem_append_left _ own) (positive.trans_le fit)
  simp only [MemoryManager.whole] at inside
  refine ⟨?_, address, by omega, by omega, ⟨t, own, fit⟩, covers⟩
  -- only a child without free memory is asked for nothing
  have counted := full.counted_iff.mpr rfl
  have large := le_sizes own
  rw [State.Counted] at counted
  unfold Child.asked
  split <;> omega

end OneChild

/-! ### All children -/

/-- The range lies in a child. -/
def InChild (cs : List Child) (r : Range) : Prop :=
  ∃ c ∈ cs, c.manager.start ≤ r.start ∧ r.start + r.size ≤ c.manager.start + c.manager.size

/-- The memories of two children have no address in common. -/
def Child.Apart (c d : Child) : Prop :=
  c.manager.start + c.manager.size ≤ d.manager.start
    ∨ d.manager.start + d.manager.size ≤ c.manager.start

theorem Child.Apart.outside {c d : Child} (apart : c.Apart d) (pos : 0 < r.size)
    (first : c.manager.start ≤ r.start) (last : r.start + r.size ≤ c.manager.start + c.manager.size) :
    r.start < d.manager.start ∨ d.manager.start + d.manager.size ≤ r.start := by
  rcases apart with below | above
  · exact Or.inl (by omega)
  · exact Or.inr (by omega)

/-- Ranges of different children are disjoint. -/
theorem InChild.disjoint {c : Child} {cs : List Child} {t : Range} (away : ∀ d ∈ cs, c.Apart d)
    (first : c.manager.start ≤ r.start) (last : r.start + r.size ≤ c.manager.start + c.manager.size)
    (other : InChild cs t) : r.Disjoint t := by
  intro x both
  obtain ⟨d, known, low, high⟩ := other
  have apart := away d known
  simp only [Range.Has] at both
  rw [Child.Apart] at apart
  omega

theorem InChild.cons {cs : List Child} (inside : InChild cs r) (c : Child) :
    InChild (c :: cs) r := by
  obtain ⟨d, known, bounds⟩ := inside
  exact ⟨d, List.mem_cons_of_mem c known, bounds⟩

theorem record_fresh {chunks : List Range} {addr : Nat} (fresh : ∀ r ∈ chunks, r.start ≠ addr) :
    record chunks addr size = chunks ++ [⟨addr, size⟩] := by
  rw [record, List.filter_eq_self.mpr fun r member => by simpa using fresh r member]

theorem allocated_refl (cs : List Child) : Allocated cs cs [] := by
  induction cs with
  | nil => rfl
  | cons c cs ih => exact Or.inl ⟨rfl, ih⟩

section Loop

variable {c : Child} {cs cs' : List Child} {chunks : List Range} {addr part : Nat}

theorem allocated_kept : Allocated (c :: cs) (c :: cs') chunks ↔ Allocated cs cs' chunks := by
  constructor
  · rintro (⟨-, rest⟩ | ⟨chunk, rest, -, -, busy, -⟩)
    · exact rest
    · have length := congrArg List.length busy
      rw [List.length_append, List.length_singleton] at length
      omega
  · exact fun rest => Or.inl ⟨rfl, rest⟩

theorem allocated_taken (state : State)
    (busy : state.busyBufferList = c.state.busyBufferList ++ [⟨addr, size⟩])
    (covers : ∀ x, cover (⟨addr, size⟩ :: state.freeBufferList) x = cover c.state.freeBufferList x) :
    Allocated (c :: cs) ({ c with state := state } :: cs') (⟨addr, part⟩ :: chunks)
      ↔ size = part ∧ Allocated cs cs' chunks := by
  constructor
  · rintro (⟨same, -⟩ | ⟨chunk, rest, ⟨⟩, -, other, -, later⟩)
    · have length := congrArg (fun d : Child => d.state.busyBufferList.length) same
      simp only [busy, List.length_append, List.length_singleton] at length
      omega
    · have sized := List.append_cancel_left (busy.symm.trans other)
      simp only [List.cons.injEq, Range.mk.injEq, and_true, true_and] at sized
      exact ⟨sized, later⟩
  · rintro ⟨rfl, later⟩
    exact Or.inr ⟨_, chunks, rfl, rfl, busy, covers, later⟩

/-- What the second loop does if the children have enough: the chunks that are new, and the children
after it. -/
structure Added (remainingSize result result' : Nat) (cs cs' : List Child) (new : List Range) :
    Prop where
  address : result' = null ↔ result = null ∧ new = []
  refusing : new = [] ↔ (remainingSize ≠ 0 → Refusing remainingSize cs)
  same : new = [] → cs' = cs
  sum : sizes new ≤ remainingSize
  granting : Allocated cs cs' new ∧ sizes new = remainingSize
    ↔ (remainingSize ≠ 0 → Granting remainingSize cs)
  inside : ∀ r ∈ new, InChild cs r
  disjoint : new.Pairwise Range.Disjoint

variable {remainingSize result result' : Nat} {new : List Range}

/-- The loop ends as soon as nothing remains. -/
theorem added_nothing (cs : List Child) (ends : remainingSize = 0) :
    Added remainingSize result result cs cs [] := by
  subst ends
  exact ⟨by simp, by simp, by simp, Nat.le_refl 0, iff_of_true ⟨allocated_refl cs, rfl⟩ (by simp),
    by simp, .nil⟩

/-- The part of a child that refuses is missing. -/
theorem Added.refused (rest : Added (remainingSize - c.asked remainingSize) result result' cs cs' new)
    (some' : 0 < remainingSize)
    (found : firstFit (c.manager.rounded (c.asked remainingSize)) c.state.freeBufferList = none) :
    Added remainingSize result result' (c :: cs) (c :: cs') new where
  address := rest.address
  refusing := by
    rw [rest.refusing, Refusing, ← firstFit_none_iff]
    simp [found, some'.ne']
  same none := by rw [rest.same none]
  sum := rest.sum.trans (Nat.sub_le ..)
  granting := by
    obtain ⟨-, -, -, sum, granting, -⟩ := rest
    rw [allocated_kept]
    rcases Nat.eq_zero_or_pos (c.asked remainingSize) with none | asks
    · rw [none] at granting
      simpa [Granting, none, some'.ne'] using granting
    · refine iff_of_false (fun both => by omega) fun all => ?_
      obtain ⟨whole, r, member, large⟩ := (all some'.ne').1 asks
      have small := firstFit_none_iff.mp found r member
      rw [(rounded_bounds c.manager _).2.2.mpr ⟨asks, whole⟩] at small
      omega
  inside r member := (rest.inside r member).cons c
  disjoint := rest.disjoint

/-- The part of a child that has a range is a chunk, which is what it allocated if the part is not
rounded. -/
theorem Added.taken {old free : Nat}
    (rest : Added (remainingSize - c.asked remainingSize) result result' cs cs' new)
    (found : Found c (c.asked remainingSize) addr left) (good : result ≠ null)
    (away : ∀ d ∈ cs, c.Apart d) :
    Added remainingSize old result' (c :: cs) (⟨c.manager, c.small, left, c.state.busyBufferList
        ++ [⟨addr, c.manager.rounded (c.asked remainingSize)⟩], free⟩ :: cs')
      (⟨addr, c.asked remainingSize⟩ :: new) := by
  obtain ⟨r, member, large⟩ := found.large
  obtain ⟨address, -, -, sum, granting, inside, disjoint⟩ := rest
  obtain ⟨more, -, same⟩ := rounded_bounds c.manager (c.asked remainingSize)
  have less := (c.asked_le remainingSize).1
  have asks := found.asks
  have some' : remainingSize ≠ 0 := (asks.trans_le less).ne'
  have grants : (0 < c.asked remainingSize → c.asked remainingSize % c.manager.alignment = 0
      ∧ ∃ r ∈ c.state.freeBufferList, c.asked remainingSize ≤ r.size)
      ↔ c.manager.rounded (c.asked remainingSize) = c.asked remainingSize := by
    rw [same]
    exact ⟨fun all => ⟨asks, (all asks).1⟩, fun whole _ => ⟨whole.2, r, member, more.trans large⟩⟩
  refine ⟨by simp [address, good], ?_, by simp, ?_, ?_, ?_, ?_⟩
  · exact iff_of_false (by simp) fun all => ((all some').1 r member).not_ge large
  · rw [sizes_cons]
    dsimp only
    omega
  · rw [allocated_taken _ rfl found.covers, sizes_cons, Granting, grants, ← granting, and_assoc]
    simp only [some', ne_eq, not_false_eq_true, forall_const]
    refine and_congr_right fun _ => and_congr_right fun _ => ?_
    clear grants
    omega
  · exact List.forall_mem_cons.mpr
      ⟨⟨c, List.mem_cons_self, found.first, found.part_last⟩, fun r member => (inside r member).cons c⟩
  · exact List.pairwise_cons.mpr
      ⟨fun r member => (inside r member).disjoint away found.first found.part_last, disjoint⟩

/-- The second loop if the children have enough. -/
theorem allocChildren_spec (ready : ∀ c ∈ cs, Inv c.manager c.state ∧ Full 0 c.manager c.state)
    (apart : cs.Pairwise Child.Apart) (some' : 0 < remainingSize)
    (enough : missingSize remainingSize cs = 0)
    (before : ∀ r ∈ chunks, ∀ c ∈ cs, r.start < c.manager.start
      ∨ c.manager.start + c.manager.size ≤ r.start) :
    ∃ result' new cs', allocChildren remainingSize result chunks cs = (true, result', chunks ++ new, cs')
      ∧ Added remainingSize result result' cs cs' new := by
  induction cs generalizing remainingSize result chunks with
  | nil =>
    rw [missingSize] at enough
    omega
  | cons c cs ih =>
    obtain ⟨⟨inv, full⟩, others⟩ := List.forall_mem_cons.mp ready
    obtain ⟨away, apart⟩ := List.pairwise_cons.mp apart
    have sized := full.allocSize_asked remainingSize
    rw [missingSize] at enough
    rw [allocChildren]
    cases fit : firstFit (c.manager.rounded (c.asked remainingSize)) c.state.freeBufferList with
    | none =>
      rw [alloc_of_none (by rw [sized, fit])]
      have unchanged : (if result = null then null else result) = result := by
        split <;> simp_all
      simp only [ne_eq, not_true_eq_false, if_false, unchanged]
      by_cases ends : remainingSize - c.asked remainingSize = 0
      · rw [if_pos ends]
        exact ⟨result, [], _, by rw [List.append_nil], (added_nothing cs ends).refused some' fit⟩
      · rw [if_neg ends]
        obtain ⟨result', new, cs', loop, rest⟩ := ih others apart (Nat.pos_of_ne_zero ends) enough
          fun r member d known => before r member d (List.mem_cons_of_mem c known)
        rw [loop]
        exact ⟨result', new, _, rfl, rest.refused some' fit⟩
    | some outcome =>
      obtain ⟨addr, left⟩ := outcome
      have found := full.found inv some' fit
      -- the chunks so far are of other children, and none of them is overwritten
      have fresh : ∀ r ∈ chunks, r.start ≠ addr := by
        intro r member
        have away := before r member c List.mem_cons_self
        have asks := found.asks
        have first := found.first
        have last := found.part_last
        omega
      have good : (if result = null then addr else result) ≠ null := by
        split
        · exact found.address
        · assumption
      rw [alloc_of_some (by rw [sized, fit]), sized]
      dsimp only
      rw [if_pos found.address, record_fresh fresh]
      by_cases ends : remainingSize - c.asked remainingSize = 0
      · rw [if_pos ends]
        exact ⟨_, _, _, rfl, (added_nothing cs ends).taken found good away⟩
      · rw [if_neg ends]
        have before' : ∀ r ∈ chunks ++ [⟨addr, c.asked remainingSize⟩], ∀ d ∈ cs,
            r.start < d.manager.start ∨ d.manager.start + d.manager.size ≤ r.start := by
          intro r member d inside
          rcases List.mem_append.mp member with old | new
          · exact before r old d (List.mem_cons_of_mem c inside)
          · rw [List.mem_singleton.mp new]
            exact (away d inside).outside found.asks found.first found.part_last
        obtain ⟨result', new, cs', loop, rest⟩ :=
          ih others apart (Nat.pos_of_ne_zero ends) enough before'
        rw [loop, List.append_assoc]
        exact ⟨_, _, _, rfl, rest.taken found good away⟩

end Loop

def fourPages : MemoryManager where
  size := 16384
  start := 0
  alignment := 4096
  positive := twoPages.positive
  aligned := twoPages.aligned
  fits := by decide

def lastPages : MemoryManager where
  size := 8192
  start := 16384
  alignment := 4096
  positive := twoPages.positive
  aligned := by decide
  fits := by decide

def sixPages : MemoryManager where
  size := 24576
  start := 0
  alignment := 4096
  positive := twoPages.positive
  aligned := twoPages.aligned
  fits := by decide

def onePage : fourPages.Request where
  origSize := 4096
  paddingFactor := 0
  factor := by decide
  fits := by decide

def fivePages : sixPages.Request where
  origSize := 20480
  paddingFactor := 0
  factor := by decide
  fits := by decide

def twoChildren : List Child :=
  [⟨fourPages, by decide, fourPages.initial⟩, ⟨lastPages, by decide, lastPages.initial⟩]

/-- Two of the four pages are free, but not next to each other. -/
def scattered : Child where
  manager := fourPages
  small := by decide
  state := ⟨[⟨0, 4096⟩, ⟨8192, 4096⟩], [⟨4096, 4096⟩, ⟨12288, 4096⟩], 8192⟩

def fresh : Child := ⟨lastPages, by decide, lastPages.initial⟩

end Xrt.Emu
