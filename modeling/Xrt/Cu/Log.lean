import Xrt.Lib.Bytes
import Xrt.Lib.Run
import Xrt.Lib.Window

/-!
# The log of a CU

With debugging on, a CU logs what becomes of its commands in a circular buffer, which a file in
sysfs reads. When the buffer is full a new record takes the place of the oldest one. The buffer is
an array of bytes, and its head and tail are offsets in it.
-/
namespace Xrt.Cu.Log

open Lib

/-- `struct xrt_cu_log`. -/
structure XrtCuLog where
  stage : BitVec 32
  cmdId : BitVec 32
  ts : BitVec 64
  deriving DecidableEq, Repr

/-- The record in memory. -/
def XrtCuLog.bytes (item : XrtCuLog) : List Byte :=
  encodeLe 4 item.stage.toNat ++ encodeLe 4 item.cmdId.toNat ++ encodeLe 8 item.ts.toNat

@[simp] theorem length_bytes (item : XrtCuLog) : item.bytes.length = 16 := by
  simp [XrtCuLog.bytes]

def CIRC_BUF_SIZE : Nat := 2 * 4096

/-- `struct xrt_cu`, as far as the log uses it. -/
structure XrtCu where
  debug : Bool
  buf : Nat → Byte
  head : Nat
  tail : Nat

/-- `CIRC_CNT`: the difference wraps around at a power of two that the size divides. -/
def circCnt (head tail : Nat) : Nat := (((head : Int) - tail) % CIRC_BUF_SIZE).toNat

def circSpace (head tail : Nat) : Nat := circCnt tail (head + 1)

def circCntToEnd (head tail : Nat) : Nat :=
  let toEnd : Int := CIRC_BUF_SIZE - tail
  let n := (head + toEnd) % CIRC_BUF_SIZE
  (if n < toEnd then n else toEnd).toNat

/-- One call at time `now`; of the command only 32 bits are stored. -/
def xrtCuCircProduce (xcu : XrtCu) (stage : BitVec 32) (cmd now : BitVec 64) : XrtCu :=
  if !xcu.debug then xcu
  else
    let item : XrtCuLog := ⟨stage, cmd.setWidth 32, now⟩
    let dropped := if CIRC_BUF_SIZE ≤ xcu.tail + 16 then 0 else xcu.tail + 16
    { xcu with
      buf := store xcu.buf xcu.head item.bytes
      head := if CIRC_BUF_SIZE ≤ xcu.head + 16 then 0 else xcu.head + 16
      tail := if circSpace xcu.head xcu.tail < 16 then dropped else xcu.tail }

/-- The log after a read of `size` bytes, and the bytes that were read. -/
def xrtCuCircConsumeAll (xcu : XrtCu) (size : Nat) : XrtCu × List Byte :=
  let cnt := circCnt xcu.head xcu.tail
  let cntToEnd := circCntToEnd xcu.head xcu.tail
  let nread := if size < cnt then size else cnt
  if nread ≤ cntToEnd then
    ({ xcu with tail := xcu.tail + nread }, cells xcu.buf xcu.tail nread)
  else
    ({ xcu with tail := nread - cntToEnd },
      cells xcu.buf xcu.tail cntToEnd ++ cells xcu.buf 0 (nread - cntToEnd))

/-! ### The records that have not been read -/

/-- The records that the buffer has room for. -/
def capacity : Nat := CIRC_BUF_SIZE / 16 - 1

def newest (records : List XrtCuLog) : List XrtCuLog := records.drop (records.length - capacity)

/-- The log holds the records that have not been read, from the tail on. The tail may be the end of
the buffer, the head may not. -/
structure Holds (xcu : XrtCu) (unread : List XrtCuLog) : Prop where
  debug : xcu.debug = true
  aligned : 16 ∣ xcu.tail
  tail_le : xcu.tail ≤ CIRC_BUF_SIZE
  length_le : unread.length ≤ capacity
  head : xcu.head = (xcu.tail + 16 * unread.length) % CIRC_BUF_SIZE
  bytes : window xcu.buf CIRC_BUF_SIZE xcu.tail (16 * unread.length) =
    unread.flatMap XrtCuLog.bytes

theorem length_flatMap_bytes (records : List XrtCuLog) :
    (records.flatMap XrtCuLog.bytes).length = 16 * records.length := by
  induction records with
  | nil => rfl
  | cons item records ih =>
    rw [List.flatMap_cons, List.length_append, length_bytes, ih, List.length_cons]
    omega

theorem window_split {mem : Nat → Byte} {start n : Nat} {records : List XrtCuLog}
    (bytes : window mem CIRC_BUF_SIZE start (16 * records.length) = records.flatMap XrtCuLog.bytes)
    (le : n ≤ records.length) :
    window mem CIRC_BUF_SIZE start (16 * n) = (records.take n).flatMap XrtCuLog.bytes ∧
      window mem CIRC_BUF_SIZE (start + 16 * n) (16 * (records.drop n).length) =
        (records.drop n).flatMap XrtCuLog.bytes := by
  have total : 16 * records.length = 16 * n + 16 * (records.drop n).length := by
    rw [List.length_drop]
    omega
  conv_rhs at bytes => rw [← List.take_append_drop n records, List.flatMap_append]
  rw [total, window_add] at bytes
  apply List.append_inj bytes
  rw [length_flatMap_bytes, List.length_take_of_le le]
  simp [window]

/-- An offset that has run past the end of the buffer. -/
def turn (t : Nat) : Nat := if t ≤ CIRC_BUF_SIZE then t else t - CIRC_BUF_SIZE

theorem turn_spec {t : Nat} (aligned : 16 ∣ t) (le : t ≤ 2 * CIRC_BUF_SIZE) :
    16 ∣ turn t ∧ turn t ≤ CIRC_BUF_SIZE ∧ turn t % CIRC_BUF_SIZE = t % CIRC_BUF_SIZE := by
  by_cases inside : t ≤ CIRC_BUF_SIZE
  · rw [turn, if_pos inside]
    exact ⟨aligned, inside, rfl⟩
  · rw [turn, if_neg inside]
    simp only [CIRC_BUF_SIZE] at *
    omega

namespace Holds

variable {xcu : XrtCu} {unread : List XrtCuLog}

section

variable (holds : Holds xcu unread)
include holds

theorem circCnt_eq : circCnt xcu.head xcu.tail = 16 * unread.length := by
  have le := holds.length_le
  have tail_le := holds.tail_le
  rw [circCnt, holds.head]
  simp only [capacity, CIRC_BUF_SIZE] at *
  omega

theorem circCntToEnd_eq :
    circCntToEnd xcu.head xcu.tail = min (16 * unread.length) (CIRC_BUF_SIZE - xcu.tail) := by
  have le := holds.length_le
  have tail_le := holds.tail_le
  rw [circCntToEnd, holds.head]
  simp only [capacity, CIRC_BUF_SIZE] at *
  split_ifs <;> omega

theorem circSpace_lt_iff : circSpace xcu.head xcu.tail < 16 ↔ unread.length = capacity := by
  have le := holds.length_le
  have tail_le := holds.tail_le
  rw [circSpace, circCnt, holds.head]
  simp only [capacity, CIRC_BUF_SIZE] at *
  omega

end

variable (stage : BitVec 32) (cmd now : BitVec 64)

section

variable (holds : Holds xcu unread)
include holds

theorem produce_eq : xrtCuCircProduce xcu stage cmd now =
      { xcu with
        buf := store xcu.buf xcu.head (XrtCuLog.bytes ⟨stage, cmd.setWidth 32, now⟩)
        head := (xcu.tail + 16 * (unread.length + 1)) % CIRC_BUF_SIZE
        tail := if unread.length = capacity then
            if CIRC_BUF_SIZE ≤ xcu.tail + 16 then 0 else xcu.tail + 16
          else xcu.tail } := by
  have aligned := holds.aligned
  have next : (if CIRC_BUF_SIZE ≤ xcu.head + 16 then 0 else xcu.head + 16) =
      (xcu.tail + 16 * (unread.length + 1)) % CIRC_BUF_SIZE := by
    rw [holds.head]
    split <;> simp only [CIRC_BUF_SIZE] at * <;> omega
  simp [xrtCuCircProduce, holds.debug, holds.circSpace_lt_iff, next]

/-- A new record is logged, in place of the oldest one if the log is full: unless the last read has
left the tail at the end of the buffer. -/
theorem produce (wrapped : xcu.tail = CIRC_BUF_SIZE → unread.length ≠ capacity) :
    Holds (xrtCuCircProduce xcu stage cmd now)
      (newest (unread ++ [⟨stage, cmd.setWidth 32, now⟩])) := by
  have le := holds.length_le
  have aligned := holds.aligned
  have tail_le := holds.tail_le
  -- a record never goes across the end of the buffer
  have whole : (xcu.tail + 16 * unread.length) % CIRC_BUF_SIZE + 16 ≤ CIRC_BUF_SIZE := by
    simp only [CIRC_BUF_SIZE] at *
    omega
  generalize item : (⟨stage, cmd.setWidth 32, now⟩ : XrtCuLog) = record
  have bytes : window (store xcu.buf xcu.head record.bytes) CIRC_BUF_SIZE xcu.tail
      (16 * (unread ++ [record]).length) = (unread ++ [record]).flatMap XrtCuLog.bytes := by
    have stored := window_store xcu.buf CIRC_BUF_SIZE xcu.tail
      (16 * unread.length) record.bytes
    rw [length_bytes] at stored
    rw [List.length_append, List.length_singleton, Nat.mul_succ, holds.head, List.flatMap_append,
      List.flatMap_singleton, ← holds.bytes]
    apply stored _ whole
    simp only [capacity, CIRC_BUF_SIZE] at *
    omega
  rw [holds.produce_eq, item]
  by_cases full : unread.length = capacity
  · -- the tail moves past the oldest record, and the window with it
    have tail : (if CIRC_BUF_SIZE ≤ xcu.tail + 16 then 0 else xcu.tail + 16) =
        (xcu.tail + 16) % CIRC_BUF_SIZE := by
      split <;> simp only [capacity, CIRC_BUF_SIZE] at * <;> omega
    have oldest : newest (unread ++ [record]) = (unread ++ [record]).drop 1 := by
      simp [newest, full]
    have length : ((unread ++ [record]).drop 1).length = unread.length := by simp
    have later := (window_split bytes (n := 1) (by simp)).2
    rw [oldest, if_pos full, tail]
    constructor
    · exact holds.debug
    · simp only [CIRC_BUF_SIZE]
      omega
    · exact Nat.le_of_lt (Nat.mod_lt _ (by decide))
    · rwa [length]
    · have sum : xcu.tail + 16 * (unread.length + 1) = xcu.tail + 16 + 16 * unread.length := by omega
      rw [length, Nat.mod_add_mod, sum]
    · rwa [window_mod]
  · have all : newest (unread ++ [record]) = unread ++ [record] := by
      have fits : unread.length + 1 - capacity = 0 := by omega
      simp [newest, fits]
    rw [all, if_neg full]
    refine ⟨holds.debug, aligned, tail_le, ?_, ?_, bytes⟩
    · rw [List.length_append, List.length_singleton]
      omega
    · rw [List.length_append, List.length_singleton]

theorem consumeAll_eq (n : Nat) : xrtCuCircConsumeAll xcu (16 * n) =
      ({ xcu with
          tail := turn (xcu.tail + 16 * min n unread.length) },
        (unread.take n).flatMap XrtCuLog.bytes) := by
  have tail_le := holds.tail_le
  have nread : (if 16 * n < 16 * unread.length then 16 * n else 16 * unread.length) =
      16 * min n unread.length := by
    split_ifs <;> omega
  have first := (window_split holds.bytes (Nat.min_le_right n unread.length)).1
  rw [← List.take_eq_take_min] at first
  rw [xrtCuCircConsumeAll, holds.circCnt_eq, holds.circCntToEnd_eq, nread, ← first]
  by_cases inside : xcu.tail + 16 * min n unread.length ≤ CIRC_BUF_SIZE
  · rw [if_pos (by omega), turn, if_pos inside, cells_eq_window _ inside]
  · -- the end of the buffer is reached, and the rest is read from its start
    have toEnd : min (16 * unread.length) (CIRC_BUF_SIZE - xcu.tail) = CIRC_BUF_SIZE - xcu.tail := by
      omega
    obtain ⟨rest, split⟩ := Nat.exists_eq_add_of_le (show CIRC_BUF_SIZE - xcu.tail ≤
      16 * min n unread.length by omega)
    have around := window_mod xcu.buf CIRC_BUF_SIZE (xcu.tail + (CIRC_BUF_SIZE - xcu.tail)) rest
    rw [Nat.add_sub_cancel' tail_le, Nat.mod_self] at around
    have short : 0 + rest ≤ CIRC_BUF_SIZE := by
      have le := holds.length_le
      simp only [capacity, CIRC_BUF_SIZE] at *
      omega
    have tail : rest = xcu.tail + (CIRC_BUF_SIZE - xcu.tail + rest) - CIRC_BUF_SIZE := by omega
    rw [toEnd, if_neg (by omega), turn, if_neg inside, split, Nat.add_sub_cancel_left, window_add,
      cells_eq_window _ (Nat.le_of_eq (Nat.add_sub_cancel' tail_le)), cells_eq_window _ short,
      around, Nat.add_sub_cancel' tail_le, ← tail]

theorem consumeAll (n : Nat) : Holds (xrtCuCircConsumeAll xcu (16 * n)).1 (unread.drop n) := by
  have aligned := holds.aligned
  have tail_le := holds.tail_le
  have le := holds.length_le
  have dropped : unread.drop n = unread.drop (min n unread.length) := by simp
  have later := (window_split holds.bytes (Nat.min_le_right n unread.length)).2
  have length : (unread.drop (min n unread.length)).length = unread.length - min n unread.length :=
    List.length_drop
  obtain ⟨aligned', tail_le', tail⟩ :=
    turn_spec (t := xcu.tail + 16 * min n unread.length) (by omega) (by
      simp only [CIRC_BUF_SIZE, capacity] at *
      omega)
  rw [holds.consumeAll_eq, dropped]
  refine ⟨holds.debug, aligned', tail_le', ?_, ?_, ?_⟩
  · rw [length]
    omega
  · have sum : xcu.tail + 16 * min n unread.length + 16 * (unread.length - min n unread.length) =
        xcu.tail + 16 * unread.length := by omega
    change xcu.head = (turn (xcu.tail + 16 * min n unread.length) + _) % CIRC_BUF_SIZE
    rw [length, ← Nat.mod_add_mod, tail, Nat.mod_add_mod, sum, holds.head]
  · rwa [← window_mod, tail, window_mod]

end

end Holds

/-! ### Runs -/

inductive Op where
  | produce (stage : BitVec 32) (cmd now : BitVec 64)
  | consume (records : Nat)

variable (s : XrtCu × List XrtCuLog)

/-- The log after an operation, and the records that should not have been read yet. -/
def step : Op → Option (XrtCu × List XrtCuLog)
  | .produce stage cmd now =>
    some (xrtCuCircProduce s.1 stage cmd now, newest (s.2 ++ [⟨stage, cmd.setWidth 32, now⟩]))
  | .consume records => some ((xrtCuCircConsumeAll s.1 (16 * records)).1, s.2.drop records)

/-- A read of any number of records returns the oldest of those that have not been read. -/
def Reads : Prop :=
  ∀ records, (xrtCuCircConsumeAll s.1 (16 * records)).2 =
    (s.2.take records).flatMap XrtCuLog.bytes

/-- A full log whose tail is the end of the buffer gets no new record. -/
def Wrapped : Op → Prop
  | .produce _ _ _ => s.1.tail = CIRC_BUF_SIZE → s.2.length ≠ capacity
  | .consume _ => True

/-- `xrt_cu_init` with debugging on. -/
def start (buf : Nat → Byte) : XrtCu := ⟨true, buf, 0, 0⟩

theorem start_holds (buf : Nat → Byte) : Holds (start buf) [] :=
  ⟨rfl, by simp [start], Nat.zero_le _, Nat.zero_le _, rfl, rfl⟩

/-- The tail goes to the start of the buffer instead of behind the oldest record, where the head
is then: the log is empty. -/
theorem Holds.lost {xcu : XrtCu} {unread : List XrtCuLog} (holds : Holds xcu unread)
    (atEnd : xcu.tail = CIRC_BUF_SIZE) (full : unread.length = capacity) (stage : BitVec 32)
    (cmd now : BitVec 64) (size : Nat) :
    (xrtCuCircConsumeAll (xrtCuCircProduce xcu stage cmd now) size).2 = [] := by
  have head : (CIRC_BUF_SIZE + 16 * (capacity + 1)) % CIRC_BUF_SIZE = 0 := by decide
  have none : circCnt 0 0 = 0 := by decide
  rw [holds.produce_eq, if_pos full, atEnd, if_pos (by decide), full, head]
  simp [xrtCuCircConsumeAll, none, cells]

/-- Every read of a run returns what it should, exactly if no record is logged while the log is full
and the tail is the end of the buffer. -/
theorem xrtCuCirc_reads_iff (buf : Nat → Byte) (ops : List Op) :
    Always step Reads (start buf, []) ops ↔ Along step Wrapped (start buf, []) ops := by
  apply always_iff_along_of_made (P := fun s => Holds s.1 s.2) _ _ _ (start_holds buf)
  · rintro s op t holds wrapped stepped
    cases op with
    | produce stage cmd now =>
      obtain rfl := Option.some.inj stepped
      dsimp only
      exact holds.produce stage cmd now wrapped
    | consume records =>
      obtain rfl := Option.some.inj stepped
      exact holds.consumeAll records
  · intro s holds records
    rw [holds.consumeAll_eq]
  · intro s op holds failed
    cases op with
    | produce stage cmd now =>
      obtain ⟨atEnd, full⟩ := Classical.not_imp.mp failed
      refine ⟨_, rfl, fun reads => ?_⟩
      -- a read of one record comes back empty, although a record was just logged
      have first := congrArg List.length (reads 1)
      dsimp only at first
      have kept : 0 < (newest (s.2 ++ [⟨stage, cmd.setWidth 32, now⟩])).length := by
        rw [newest, List.length_drop, List.length_append, List.length_singleton, not_not.mp full]
        decide
      rw [holds.lost atEnd (not_not.mp full), length_flatMap_bytes, List.length_take,
        List.length_nil] at first
      omega
    | consume records => exact absurd trivial failed

/-- The record that a command without an id leaves in the run queue at time zero. -/
def queued : XrtCuLog := ⟨1, 0, 0⟩

def logQueued : Op := .produce 1 0 0

theorem run_logQueued (ops : List Op) : run step s (logQueued :: ops) =
      run step (xrtCuCircProduce s.1 1 0 0, newest (s.2 ++ [queued])) ops := rfl

theorem run_consume (n : Nat) (ops : List Op) : run step s (.consume n :: ops) =
      run step ((xrtCuCircConsumeAll s.1 (16 * n)).1, s.2.drop n) ops := rfl

theorem run_fill {xcu : XrtCu} {unread : List XrtCuLog} (holds : Holds xcu unread) {k : Nat}
    (room : unread.length + k ≤ capacity) (ops : List Op) :
    ∃ xcu', Holds xcu' (unread ++ List.replicate k queued) ∧ xcu'.tail = xcu.tail ∧
      run step (xcu, unread) (List.replicate k logQueued ++ ops) =
        run step (xcu', unread ++ List.replicate k queued) ops := by
  induction k generalizing xcu unread with
  | zero => exact ⟨xcu, by simpa using holds, rfl, by simp⟩
  | succ k ih =>
    have free : unread.length ≠ capacity := by omega
    have all : newest (unread ++ [queued]) = unread ++ [queued] := by
      have fits : unread.length + 1 - capacity = 0 := by omega
      simp [newest, fits]
    have tail : (xrtCuCircProduce xcu 1 0 0).tail = xcu.tail := by
      rw [holds.produce_eq, if_neg free]
    have logged : Holds _ (newest (unread ++ [queued])) := holds.produce 1 0 0 fun _ => free
    rw [all] at logged
    obtain ⟨xcu', holds', tail', ran⟩ := ih logged (by simp; omega)
    rw [List.append_assoc, List.singleton_append, ← List.replicate_succ] at holds' ran
    refine ⟨xcu', holds', tail'.trans tail, ?_⟩
    rw [List.replicate_succ, List.cons_append, run_logQueued, all, ran]

theorem run_fill_consume {xcu : XrtCu} (holds : Holds xcu []) {k : Nat} (le : k ≤ capacity)
    (ops : List Op) :
    ∃ xcu', Holds xcu' [] ∧ xcu'.tail = turn (xcu.tail + 16 * k) ∧
      run step (xcu, []) (List.replicate k logQueued ++ .consume k :: ops) =
        run step (xcu', []) ops := by
  obtain ⟨full, filled, tail, ran⟩ := run_fill holds (by simpa using le) (.consume k :: ops)
  rw [List.nil_append] at filled ran
  have read := filled.consumeAll k
  have readTail := congrArg (·.1.tail) (filled.consumeAll_eq k)
  simp only [List.length_replicate, Nat.min_self, tail] at readTail
  rw [run_consume] at ran
  simp only [List.drop_replicate, Nat.sub_self, List.replicate_zero] at read ran
  exact ⟨_, read, readTail, ran⟩

/-- The second read leaves the tail at the end of the buffer. The log fills up, and with the next
record everything in it is gone. -/
theorem xrtCuCirc_loses :
    ∃ xcu unread, run step (start (fun _ => 0), [])
        (List.replicate capacity logQueued ++ .consume capacity ::
          (List.replicate 1 logQueued ++ .consume 1 ::
            (List.replicate capacity logQueued ++ [logQueued]))) = some (xcu, unread) ∧
      unread.length = capacity ∧ ∀ size, (xrtCuCircConsumeAll xcu size).2 = [] := by
  obtain ⟨first, holds, tail, ran⟩ := run_fill_consume (start_holds _) le_rfl
    (List.replicate 1 logQueued ++ .consume 1 :: (List.replicate capacity logQueued ++ [logQueued]))
  obtain ⟨second, holds', tail', ran'⟩ := run_fill_consume holds (k := 1) (by decide)
    (List.replicate capacity logQueued ++ [logQueued])
  obtain ⟨third, full, tail'', ran''⟩ := run_fill holds' (k := capacity) (by simp) [logQueued]
  rw [List.nil_append] at full ran''
  have atEnd : third.tail = CIRC_BUF_SIZE := by
    have zero : (start (fun _ => 0)).tail = 0 := rfl
    rw [tail'', tail', tail, zero]
    decide
  refine ⟨xrtCuCircProduce third 1 0 0, newest (List.replicate capacity queued ++ [queued]), ?_, ?_,
    full.lost atEnd (by simp) 1 0 0⟩
  · rw [ran, ran', ran'', run_logQueued, run_nil]
  · simp [newest]

end Xrt.Cu.Log
