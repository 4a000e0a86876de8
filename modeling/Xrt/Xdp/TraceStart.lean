import Mathlib.Order.Basic
import Xrt.Xdp.Packets

/-!
# The start of the trace

`processTraceData` looks for eight clock-training packets in a row, as long as it has not seen any, and
handles the packets of a block from there on. The search ends at `numPackets - 8`, which is unsigned
and not reached: the last position is not tried, and in a block of less than eight packets the search
goes on behind it.
-/
namespace Xrt.Xdp

/-- What `processTraceData` keeps between its calls. -/
structure Static where
  found : Bool
  modulus : Nat
  clockTrainingHostTimestamp : BitVec 64
deriving DecidableEq, Repr

/-- A call that the handling of packets makes. -/
inductive Handled
  | train (deviceTimestamp hostTimestamp : BitVec 64)
  | am (packet : BitVec 64)
  | aim (packet : BitVec 64)
  | asm (packet : BitVec 64)
deriving DecidableEq, Repr

/-- The memory of the trace from the block on, packet by packet. -/
abbrev TraceMem := Nat → BitVec 64

/-- The inner loop of the search: the packets it reads, and whether all are clock training. -/
def trainingFrom (data : TraceMem) : (left j : Nat) → List Nat × Bool
  | 0, _ => ([], true)
  | left + 1, j =>
    if isClockTraining (data j) then
      let later := trainingFrom data left (j + 1)
      (j :: later.1, later.2)
    else ([j], false)

/-- The search over `left` positions: the packets it reads, and the start it finds. -/
def findStart (data : TraceMem) : (left i : Nat) → List Nat × Option Nat
  | 0, _ => ([], none)
  | left + 1, i =>
    let here := trainingFrom data 8 i
    if here.2 then (here.1, some i)
    else
      let later := findStart data left (i + 1)
      (here.1 ++ later.1, later.2)

/-- One packet of the block. -/
def handle (s : Static) (packet : BitVec 64) : Static × List Handled :=
  let deviceTimestamp := getDeviceTimestamp packet
  let traceId := getTraceId packet
  if isClockTraining packet then
    let trained :=
      if s.modulus = 0 then
        if firstTimestamp ≤ deviceTimestamp then deviceTimestamp - firstTimestamp
        else deviceTimestamp + (0x1FFFFFFFFFFF - firstTimestamp)
      else deviceTimestamp
    let host := s.clockTrainingHostTimestamp ||| (((packet >>> 45) &&& 0xFFFF) <<< (16 * s.modulus))
    if s.modulus + 1 = 4 then
      ({ s with modulus := 0, clockTrainingHostTimestamp := 0 }, [.train trained host])
    else ({ s with modulus := s.modulus + 1, clockTrainingHostTimestamp := host }, [])
  else
    (s, (if min_trace_id_am ≤ traceId ∧ traceId ≤ max_trace_id_am then [.am packet] else []) ++
      (if traceId ≤ max_trace_id_aim then [.aim packet] else []) ++
      if min_trace_id_asm ≤ traceId ∧ traceId < max_trace_id_asm then [.asm packet] else [])

/-- The packets of the block from `i` on. -/
def handleFrom (data : TraceMem) : (left i : Nat) → Static → Static × List Handled
  | 0, _, s => (s, [])
  | left + 1, i, s =>
    let one := handle s (data i)
    let later := handleFrom data left (i + 1) one.1
    (later.1, one.2 ++ later.2)

/-- What a call did: the packets it read, where it started, what it handled, and what it keeps. -/
structure Processed where
  reads : List Nat
  start : Nat
  handled : List Handled
  static : Static
deriving DecidableEq, Repr

/-- `numPackets - 8`, without a sign. -/
def searchBound (numPackets : Nat) : Nat := (numPackets + 2 ^ 64 - 8) % 2 ^ 64

/-- `none` is the return before anything is done. -/
def processTraceData (alive : Bool) (data : TraceMem) (numBytes : Nat) (s : Static) :
    Option Processed :=
  if numBytes = 0 ∨ alive = false then none
  else
    let numPackets := numBytes / 8
    let search := if s.found then ([], none) else findStart data (searchBound numPackets) 0
    let start := search.2.getD 0
    let rest := handleFrom data (numPackets - start) start { s with found := s.found || search.2.isSome }
    some ⟨search.1 ++ List.range' start (numPackets - start), start, rest.2, rest.1⟩

/-! ### The search -/

/-- Eight clock-training packets begin here. -/
def Trained (data : TraceMem) (i : Nat) : Prop := ∀ k < 8, isClockTraining (data (i + k)) = true

/-- The first position of the block at which eight clock-training packets begin. -/
structure FirstTrained (data : TraceMem) (numPackets p : Nat) : Prop where
  inside : p + 8 ≤ numPackets
  trained : Trained data p
  first : ∀ q < p, ¬ Trained data q

variable {data : TraceMem} {left i j p n : Nat}

theorem trainingFrom_true_iff :
    (trainingFrom data left i).2 = true ↔ ∀ k < left, isClockTraining (data (i + k)) = true := by
  induction left generalizing i with
  | zero => simp [trainingFrom]
  | succ left ih =>
    rw [trainingFrom]
    split_ifs with here
    · rw [ih]
      constructor
      · intro later k lt
        cases k with
        | zero => exact here
        | succ k =>
          have next := later k (Nat.lt_of_succ_lt_succ lt)
          rwa [Nat.add_assoc, Nat.add_comm 1] at next
      · intro all k lt
        rw [Nat.add_assoc, Nat.add_comm 1]
        exact all (k + 1) (Nat.succ_lt_succ lt)
    · exact iff_of_false not_false fun all => here (all 0 (Nat.succ_pos left))

theorem mem_trainingFrom (member : j ∈ (trainingFrom data left i).1) : j < i + left := by
  induction left generalizing i with
  | zero => cases member
  | succ left ih =>
    rw [trainingFrom] at member
    split_ifs at member
    · rcases List.mem_cons.mp member with rfl | later
      · omega
      · have bound := ih later
        omega
    · rw [List.mem_singleton] at member
      omega

theorem mem_trainingFrom_self : i ∈ (trainingFrom data (left + 1) i).1 := by
  rw [trainingFrom]
  split_ifs <;> exact List.mem_cons_self

theorem mem_trainingFrom_last (all : (trainingFrom data (left + 1) i).2 = true) :
    i + left ∈ (trainingFrom data (left + 1) i).1 := by
  induction left generalizing i with
  | zero => exact mem_trainingFrom_self
  | succ left ih =>
    rw [trainingFrom] at all ⊢
    split_ifs at all ⊢
    have later := ih all
    rw [show i + (left + 1) = i + 1 + left by omega]
    exact List.mem_cons_of_mem _ later

/-- The search ends at a start, and there is none before its end. -/
theorem findStart_spec :
    (∀ p, (findStart data left i).2 = some p → p < i + left ∧ Trained data p) ∧
      ∀ q, i ≤ q → q < (findStart data left i).2.getD (i + left) → ¬ Trained data q := by
  induction left generalizing i with
  | zero => exact ⟨nofun, fun q le lt => absurd lt (Nat.not_lt.mpr le)⟩
  | succ left ih =>
    rw [findStart]
    dsimp only
    split_ifs with here
    · refine ⟨fun p found => ?_, fun q le lt => absurd lt (Nat.not_lt.mpr le)⟩
      obtain rfl := Option.some.inj found
      exact ⟨by omega, trainingFrom_true_iff.mp here⟩
    · obtain ⟨found, none⟩ := @ih (i + 1)
      rw [Nat.add_right_comm] at found none
      refine ⟨found, fun q le lt trained => ?_⟩
      by_cases same : q = i
      · subst same
        exact here (trainingFrom_true_iff.mpr trained)
      · exact none q (by omega) lt trained

theorem mem_findStart (member : j ∈ (findStart data left i).1) : j < i + left + 7 := by
  induction left generalizing i with
  | zero => cases member
  | succ left ih =>
    rw [findStart] at member
    dsimp only at member
    split_ifs at member
    · have bound := mem_trainingFrom member
      omega
    · rcases List.mem_append.mp member with here | later
      · have bound := mem_trainingFrom here
        omega
      · have bound := ih later
        omega

/-- A search over enough positions reads a packet behind the first seven ones. -/
theorem findStart_reads_behind (few : n < 8) (le : i ≤ n) (lt : n < i + left) :
    ∃ j ∈ (findStart data left i).1, n ≤ j := by
  induction left generalizing i with
  | zero => omega
  | succ left ih =>
    rw [findStart]
    dsimp only
    split_ifs with here
    · exact ⟨i + 7, mem_trainingFrom_last here, by omega⟩
    · by_cases same : i = n
      · exact ⟨i, List.mem_append_left _ mem_trainingFrom_self, by omega⟩
      · obtain ⟨j, member, behind⟩ : ∃ j ∈ (findStart data left (i + 1)).1, n ≤ j :=
          ih (by omega) (by omega)
        exact ⟨j, List.mem_append_right _ member, behind⟩

theorem FirstTrained.unique {q : Nat} (one : FirstTrained data n p) (two : FirstTrained data n q) :
    p = q := by
  by_contra ne
  rcases Nat.lt_or_gt_of_ne ne with lt | lt
  · exact two.first p lt one.trained
  · exact one.first q lt two.trained

/-- With eight packets or more, the search finds the start unless it is at the last position. -/
theorem findStart_first_iff (enough : 8 ≤ n) :
    (∀ p, FirstTrained data n p → (findStart data (n - 8) 0).2.getD 0 = p) ↔
      ¬ (8 < n ∧ FirstTrained data n (n - 8)) := by
  obtain ⟨some, none⟩ := @findStart_spec data (n - 8) 0
  cases found : (findStart data (n - 8) 0).2 with
  | some start =>
    rw [found] at none
    obtain ⟨bound, trained⟩ := some start found
    have first : FirstTrained data n start :=
      ⟨by omega, trained, fun q lt => none q (Nat.zero_le q) lt⟩
    refine iff_of_true (fun p other => first.unique other) fun last => ?_
    have same := first.unique last.2
    omega
  | none =>
    constructor
    · rintro right ⟨more, last⟩
      have zero : 0 = n - 8 := right _ last
      omega
    · intro only p first
      rw [found, Nat.zero_add] at none
      have far : ¬ p < n - 8 := fun lt => none p (Nat.zero_le p) lt first.trained
      have inside := first.inside
      obtain rfl : p = n - 8 := by omega
      have eight : ¬ 8 < n := fun more => only ⟨more, first⟩
      change 0 = n - 8
      omega

/-- A block is read inside its bounds and from its start on, if and only if nothing is read at all, the
start was found before, or the block has eight packets and its start is not at the last position, unless
that is the first. -/
theorem processTraceData_start_iff (alive : Bool) (data : TraceMem) (numBytes : Nat) (s : Static)
    (small : numBytes < 2 ^ 64) :
    (∀ r, processTraceData alive data numBytes s = some r →
        (∀ j ∈ r.reads, j < numBytes / 8) ∧
          (s.found = false → ∀ p, FirstTrained data (numBytes / 8) p → r.start = p)) ↔
      (numBytes = 0 ∨ alive = false) ∨ s.found = true ∨ 8 ≤ numBytes / 8 ∧
        ¬ (8 < numBytes / 8 ∧ FirstTrained data (numBytes / 8) (numBytes / 8 - 8)) := by
  have block (start : Nat) : ∀ j ∈ List.range' start (numBytes / 8 - start), j < numBytes / 8 := by
    intro j member
    rw [List.mem_range'_1] at member
    omega
  simp only [processTraceData]
  split_ifs with returned found
  · exact iff_of_true nofun (.inl returned)
  · refine iff_of_true ?_ (.inr (.inl found))
    rintro _ ⟨⟩
    refine ⟨block 0, fun no => ?_⟩
    rw [found] at no
    cases no
  · simp only [Option.some.injEq, forall_eq']
    rw [or_iff_right returned, or_iff_right found]
    by_cases few : numBytes / 8 < 8
    · -- the bound of the search is close to 2 ^ 64
      have large : numBytes / 8 < 0 + searchBound (numBytes / 8) := by
        rw [searchBound]
        omega
      obtain ⟨j, member, behind⟩ := @findStart_reads_behind data _ 0 _ few (Nat.zero_le _) large
      refine iff_of_false (fun right => ?_) fun right => ?_
      · have inside := right.1 j (List.mem_append_left _ member)
        omega
      · omega
    · have left : searchBound (numBytes / 8) = numBytes / 8 - 8 := by
        rw [searchBound]
        omega
      rw [left, ← findStart_first_iff (by omega)]
      constructor
      · exact fun right => ⟨by omega, right.2 (eq_false_of_ne_true found)⟩
      · refine fun right => ⟨fun j member => ?_, fun _ => right.2⟩
        rcases List.mem_append.mp member with searched | handled
        · have bound := mem_findStart searched
          omega
        · exact block _ j handled

/-- Nine packets, eight of them clock training behind the first. -/
def lateStart : TraceMem := fun i => if i = 0 then 0 else 1 <<< 63

theorem ten_packets_right :
    ∃ r, processTraceData true lateStart 80 ⟨false, 0, 0⟩ = some r ∧ r.start = 1 := by
  have ran : (processTraceData true lateStart 80 ⟨false, 0, 0⟩).isSome = true := by decide
  obtain ⟨r, ran⟩ := Option.isSome_iff_exists.mp ran
  have first : FirstTrained lateStart 10 1 := ⟨by decide, by unfold Trained; decide, fun q lt trained => by
    obtain rfl : q = 0 := by omega
    exact absurd (trained 0 (by decide)) (by decide)⟩
  have right := (processTraceData_start_iff true lateStart 80 ⟨false, 0, 0⟩ (by decide)).mpr
    (.inr (.inr ⟨by decide, fun last => by
      have same : (1 : Nat) = 2 := first.unique last.2
      omega⟩))
  exact ⟨r, ran, (right r ran).2 rfl 1 first⟩

/-- In a block of nine packets the start at position 1 is not found, and a block of one packet is left
behind by the search. -/
theorem last_start_missed :
    (processTraceData true lateStart 72 ⟨false, 0, 0⟩).map (·.start) = some 0 ∧
      isClockTraining (lateStart 0) = false ∧
      (List.range' 1 8).all (fun i => isClockTraining (lateStart i)) = true ∧
      (processTraceData true (fun _ => 1 <<< 63) 8 ⟨false, 0, 0⟩).map (·.reads.contains 7) =
        some true := by
  decide +kernel

end Xrt.Xdp
