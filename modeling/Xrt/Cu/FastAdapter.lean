import Xrt.Cu.Hls
import Xrt.Lib.Ranges
import Xrt.Lib.Run

/-!
# The core of a CU with a fast adapter

`fast_adapter.c`: commands are written as descriptors into the slots of a command memory, which are
used in turn, and the hardware counts the tasks that it has finished. That a slot is free again is
not recorded anywhere: it follows from the credits.
-/
namespace Xrt.Cu

open Lib

def MSWR : BitVec 32 := 0x0
def LSWR : BitVec 32 := 0x4

/-- `struct xrt_cu_fa`. `cmdmem` is the address of the command memory, if there is one, and `mem` what
is in it and behind it; `max_credits` is compared as unsigned. -/
structure XrtCuFa where
  cmdmem : Option Nat
  mem : Nat → BitVec 8
  paddr : BitVec 64
  slotSz : BitVec 32
  numSlots : BitVec 32
  headSlot : BitVec 32
  descMsw : BitVec 32
  taskCnt : BitVec 32
  maxCredits : BitVec 32
  credits : Int
  runCnts : Int
  checkCount : Nat
  submitted : List KdsCommand
  completed : List KdsCommand
  writes : List RegWrite

/-- The core after `xrt_cu_fa_init`, with what the registers `FDR`, `TCR` and `MSWR` read. -/
def xrtCuFaInit (fdr tcr mswr : BitVec 32) : XrtCuFa where
  cmdmem := none
  mem _ := 0
  paddr := 0
  slotSz := 0
  numSlots := 0
  headSlot := 0
  descMsw := mswr
  taskCnt := tcr
  maxCredits := fdr
  credits := fdr.toInt
  runCnts := 0
  checkCount := 0
  submitted := []
  completed := []
  writes := [⟨0x10, 0⟩]

namespace XrtCuFa

variable (cu : XrtCuFa)

/-- `(num_slots < max_credits)? num_slots : max_credits`, as an `int`. -/
def creditLimit : Int :=
  if cu.numSlots < cu.maxCredits then cu.numSlots.toInt else cu.maxCredits.toInt

/-- The slot size is computed by `cu_fa_get_desc_size`; the head slot stays where it was. -/
def xrtFaCfgUpdate (bar dev : BitVec 64) (vaddr : Nat) (slotSize numSlots : BitVec 32) : XrtCuFa :=
  if bar = 0 then { cu with cmdmem := none, paddr := 0, slotSz := 0, numSlots := 0 }
  else
    let cu := { cu with cmdmem := some vaddr, paddr := dev, slotSz := slotSize, numSlots := numSlots }
    { cu with credits := cu.creditLimit }

def cuFaAllocCredit : Int × XrtCuFa :=
  if cu.credits ≠ 0 then (cu.credits, { cu with credits := cu.credits - 1 }) else (0, cu)

def cuFaFreeCredit (count : Nat) : XrtCuFa :=
  { cu with credits := min (cu.credits + count) cu.creditLimit }

/-- A byte of the descriptor. -/
def descByte (xcmd : KdsCommand) (i : Nat) : BitVec 8 := (xcmd.word (i / 4)).extractLsb' (8 * (i % 4)) 8

/-- The bytes that the configuration of a command writes. -/
def descRange (xcmd : KdsCommand) : Range := ⟨cu.headSlot.toNat, xcmd.isize⟩

/-- `none` if the size of the copy, `sz - 4`, is negative: as a `size_t` it is huge. -/
def cuFaConfigure (kdsEcho : Bool) (xcmd : KdsCommand) : Option XrtCuFa :=
  if kdsEcho = true ∨ cu.cmdmem = none then some cu
  else if xcmd.isize < 4 then none
  else some { cu with mem := fun a =>
    if (cu.descRange xcmd).Has a then descByte xcmd (a - cu.headSlot.toNat) else cu.mem a }

def cuFaSubmitConfig (kdsEcho : Bool) (xcmd : KdsCommand) : Option XrtCuFa :=
  (cu.cuFaConfigure kdsEcho xcmd).map fun cu => { cu with submitted := cu.submitted ++ [xcmd] }

def cuWrite32 (reg val : BitVec 32) : XrtCuFa := { cu with writes := cu.writes ++ [⟨reg, val⟩] }

def cuFaStart (kdsEcho : Bool) : XrtCuFa :=
  let cu := { cu with runCnts := cu.runCnts + 1 }
  if kdsEcho = true ∨ cu.cmdmem = none then cu
  else
    let descMsw := (cu.paddr >>> 32).setWidth 32
    let cu :=
      if descMsw ≠ cu.descMsw then { cu.cuWrite32 MSWR descMsw with descMsw := descMsw } else cu
    -- the write of the low word starts the CU
    let cu := cu.cuWrite32 LSWR (cu.paddr.setWidth 32 + cu.headSlot)
    -- the slot is not marked as used
    let headSlot := cu.headSlot + cu.slotSz
    { cu with headSlot := if headSlot = cu.slotSz * cu.numSlots then 0 else headSlot }

/-- The oldest submitted command, if there is one, becomes the newest completed one. -/
def cuMoveToComplete (status : KdsStatus) : XrtCuFa :=
  match cu.submitted with
  | [] => cu
  | xcmd :: rest => { cu with submitted := rest, completed := cu.completed ++ [xcmd.withStatus status] }

def completeTimes : Nat → XrtCuFa → XrtCuFa
  | 0, cu => cu
  | n + 1, cu => completeTimes n (cu.cuMoveToComplete .completed)

/-- `taskCount` is what the register `TCR` reads; the result comes with `num_done` and `num_ready`,
which are the same. -/
def cuFaCheck (kdsEcho force : Bool) (taskCount : BitVec 32) : Nat × XrtCuFa :=
  if kdsEcho = true ∨ cu.cmdmem = none then (1, { cu with runCnts := cu.runCnts - 1 })
  else if force = false ∧ cu.runCnts = 0 then (0, cu)
  else
    -- right if the counter has not overflowed more than once
    let done := (taskCount - cu.taskCnt).toNat
    (done, completeTimes done { cu with
      checkCount := cu.checkCount + 1
      taskCnt := taskCount
      runCnts := cu.runCnts - done })

def cuFaGetComplete : Option KdsCommand × XrtCuFa :=
  match cu.completed with
  | [] => (none, cu)
  | xcmd :: rest => (some xcmd, { cu with completed := rest })

end XrtCuFa

/-! ### Runs with a fixed command memory -/

/-- The memory of a CU. Its slots take less than 4 GiB, since the size of the whole command memory is a
number of 32 bits, and each has room for the first word of a descriptor. -/
structure FaMemory where
  bar : BitVec 64
  dev : BitVec 64
  vaddr : Nat
  slotSz : BitVec 32
  numSlots : BitVec 32
  mapped : bar ≠ 0
  slots : 0 < numSlots.toNat
  word : 4 ≤ slotSz.toNat
  fits : slotSz.toNat * numSlots.toNat < 2 ^ 32

/-- A CU, with the number of commands started so far and the places in memory where the descriptors of
those that are not finished begin, oldest first. -/
structure FaRun where
  cu : XrtCuFa
  started : Nat
  slots : List Nat

inductive FaEvent where
  | submit (xcmd : KdsCommand)
  | check (force : Bool) (finished : Nat)
  | getComplete

def faInit (memory : FaMemory) (fdr tcr mswr : BitVec 32) : FaRun where
  cu := (xrtCuFaInit fdr tcr mswr).xrtFaCfgUpdate memory.bar memory.dev memory.vaddr memory.slotSz
    memory.numSlots
  started := 0
  slots := []

/-- A command is submitted and started with a credit; the hardware finishes no more tasks than it has
been given, and counts them. -/
def faStep (s : FaRun) : FaEvent → Option FaRun
  | .submit xcmd =>
    let credit := s.cu.cuFaAllocCredit
    if credit.1 = 0 then none
    else (credit.2.cuFaSubmitConfig false xcmd).map fun cu =>
      ⟨cu.cuFaStart false, s.started + 1, s.slots ++ [s.cu.headSlot.toNat]⟩
  | .check force finished =>
    if finished ≤ s.slots.length then
      let checked := s.cu.cuFaCheck false force (s.cu.taskCnt + BitVec.ofNat 32 finished)
      some ⟨checked.2.cuFaFreeCredit checked.1, s.started, s.slots.drop finished⟩
    else none
  | .getComplete => some { s with cu := s.cu.cuFaGetComplete.2 }

/-- The number of commands that may be outstanding. -/
def FaMemory.limit (memory : FaMemory) (fdr : BitVec 32) : Nat :=
  min memory.numSlots.toNat fdr.toNat

/-- What should hold in every state. -/
def FaSafe (memory : FaMemory) (fdr : BitVec 32) (s : FaRun) : Prop :=
  s.slots.length ≤ memory.limit fdr
    ∧ ∃ k < memory.numSlots.toNat, s.cu.headSlot.toNat = k * memory.slotSz.toNat

/-- What should hold of every event: a command with a credit is written, outside of the slots of
commands that are not finished, and the tasks finished are those of the oldest commands. -/
def FaRight (memory : FaMemory) (s : FaRun) : FaEvent → Prop
  | .submit xcmd => s.cu.credits ≠ 0 →
    4 ≤ xcmd.isize ∧ ∀ slot ∈ s.slots, (s.cu.descRange xcmd).Disjoint ⟨slot, memory.slotSz.toNat⟩
  | .check force finished => ∀ t, faStep s (.check force finished) = some t →
    t.cu.submitted = s.cu.submitted.drop finished
      ∧ t.cu.completed = s.cu.completed
        ++ (s.cu.submitted.take finished).map (·.withStatus .completed)
  | .getComplete => True

/-- The descriptor of a command does not reach the next slot that is in use, or the slots in use are
all below it. -/
def FaFits (memory : FaMemory) (s : FaRun) : FaEvent → Prop
  | .submit xcmd => s.cu.credits ≠ 0 → 4 ≤ xcmd.isize
    ∧ (s.started % memory.numSlots.toNat < s.slots.length →
      xcmd.isize ≤ (memory.numSlots.toNat - s.slots.length) * memory.slotSz.toNat)
  | _ => True

/-! ### What the functions do -/

namespace XrtCuFa

theorem completeTimes_eq (n : Nat) (cu : XrtCuFa) :
    completeTimes n cu = { cu with
      submitted := cu.submitted.drop n
      completed := cu.completed ++ (cu.submitted.take n).map (·.withStatus .completed) } := by
  induction n generalizing cu with
  | zero => simp [completeTimes]
  | succ n ih =>
    rw [completeTimes, ih, cuMoveToComplete]
    -- with nothing submitted, every turn does nothing
    cases queue : cu.submitted with
    | nil => simp [queue]
    | cons xcmd rest => simp

variable {cu : XrtCuFa}

theorem cuFaStart_eq (mapped : cu.cmdmem ≠ none) :
    ∃ descMsw writes, cu.cuFaStart false = { cu with
      runCnts := cu.runCnts + 1
      descMsw := descMsw
      writes := writes
      headSlot := if cu.headSlot + cu.slotSz = cu.slotSz * cu.numSlots then 0
        else cu.headSlot + cu.slotSz } := by
  have skip : ¬ (false = true ∨ cu.cmdmem = none) := by simp [mapped]
  rw [cuFaStart, if_neg skip]
  -- the most significant word is written only if it is another one
  by_cases same : (cu.paddr >>> 32).setWidth 32 = cu.descMsw
  · exact ⟨cu.descMsw, cu.writes ++ [⟨LSWR, cu.paddr.setWidth 32 + cu.headSlot⟩], by
      simp [same, cuWrite32]⟩
  · exact ⟨(cu.paddr >>> 32).setWidth 32, cu.writes ++ [⟨MSWR, (cu.paddr >>> 32).setWidth 32⟩]
      ++ [⟨LSWR, cu.paddr.setWidth 32 + cu.headSlot⟩], by simp [same, cuWrite32]⟩

theorem cuFaCheck_eq (mapped : cu.cmdmem ≠ none) (force : Bool) {finished : Nat}
    (small : finished < 2 ^ 32) (idle : cu.runCnts = 0 → finished = 0) :
    ∃ checkCount, cu.cuFaCheck false force (cu.taskCnt + BitVec.ofNat 32 finished) =
      (finished, { cu with
        checkCount := checkCount
        taskCnt := cu.taskCnt + BitVec.ofNat 32 finished
        runCnts := cu.runCnts - finished
        submitted := cu.submitted.drop finished
        completed := cu.completed
          ++ (cu.submitted.take finished).map (·.withStatus .completed) }) := by
  have skip : ¬ (false = true ∨ cu.cmdmem = none) := by simp [mapped]
  rw [cuFaCheck, if_neg skip]
  by_cases early : force = false ∧ cu.runCnts = 0
  · -- the counter is not read, and it has not moved
    cases idle early.2
    rw [if_pos early]
    exact ⟨cu.checkCount, by simp⟩
  · have done : (cu.taskCnt + BitVec.ofNat 32 finished - cu.taskCnt).toNat = finished := by
      have value : (BitVec.ofNat 32 finished).toNat = finished := by
        rw [BitVec.toNat_ofNat, Nat.mod_eq_of_lt small]
      bv_omega
    rw [if_neg early]
    simp only [done, completeTimes_eq]
    exact ⟨_, rfl⟩

end XrtCuFa

/-! ### Slots in turn -/

variable {started n : Nat}

theorem mod_back {j : Nat} (positive : 0 < j) (lt : j < n) (le : j ≤ started) : (started - j) % n
      = if j ≤ started % n then started % n - j else started % n + (n - j) := by
  have whole := Nat.div_add_mod started n
  have rest := Nat.mod_lt started (Nat.zero_lt_of_lt lt)
  split
  next within =>
    have shifted : started - j = n * (started / n) + (started % n - j) := by omega
    rw [shifted, Nat.mul_add_mod, Nat.mod_eq_of_lt (by omega)]
  next beyond =>
    -- one turn less has been completed
    have turn : 0 < started / n := by
      rcases Nat.eq_zero_or_pos (started / n) with none | some
      · rw [none, Nat.mul_zero] at whole
        omega
      · exact some
    obtain ⟨turns, count⟩ := Nat.exists_eq_add_of_lt turn
    rw [count, Nat.zero_add, Nat.mul_add, Nat.mul_one] at whole
    have shifted : started - j = n * turns + (started % n + (n - j)) := by omega
    rw [shifted, Nat.mul_add_mod, Nat.mod_eq_of_lt (by omega)]

theorem disjoint_slots_iff {out sz isize : Nat} (free : out < n) (le : out ≤ started)
    (positive : 0 < sz) (bytes : 0 < isize) :
    (∀ k, started - out ≤ k → k < started →
        (⟨started % n * sz, isize⟩ : Range).Disjoint ⟨k % n * sz, sz⟩)
      ↔ (started % n < out → isize ≤ (n - out) * sz) := by
  constructor
  · intro disjoint wrapped
    -- the oldest command in use is the next one above
    have index := mod_back (Nat.zero_lt_of_lt wrapped) free le
    rw [if_neg (Nat.not_le.mpr wrapped)] at index
    have apart := disjoint (started - out) le_rfl (by omega)
    rw [index] at apart
    have sides := apart.before_or_after bytes positive
    simp only [Nat.add_mul] at sides
    omega
  · intro fits k low high a
    obtain ⟨j, le_j, rfl⟩ : ∃ j ≤ out, k = started - j := ⟨started - k, by omega, by omega⟩
    rw [mod_back (by omega) (by omega) (by omega)]
    simp only [Range.Has]
    split
    next within =>
      have below : (started % n - j + 1) * sz ≤ started % n * sz :=
        Nat.mul_le_mul_right _ (by omega)
      rw [Nat.add_mul, Nat.one_mul] at below
      omega
    next beyond =>
      have room := fits (by omega)
      have above : (n - out) * sz ≤ (n - j) * sz := Nat.mul_le_mul_right _ (by omega)
      rw [Nat.add_mul]
      omega

theorem succ_mod_of_lt (positive : 0 < n) :
    (started + 1) % n = if started % n + 1 = n then 0 else started % n + 1 := by
  have rest := Nat.mod_lt started positive
  rw [Nat.add_mod]
  split
  next last =>
    rcases Nat.lt_or_ge 1 n with more | one
    · rw [Nat.mod_eq_of_lt more, last, Nat.mod_self]
    · have : n = 1 := by omega
      rw [this, Nat.mod_one]
  next inner =>
    rw [Nat.mod_eq_of_lt (by omega : 1 < n), Nat.mod_eq_of_lt (by omega)]

/-! ### The invariant -/

/-- The positions in use, the credits, the running count and the list of submitted commands all say
how many commands are outstanding. -/
structure FaInv (memory : FaMemory) (fdr : BitVec 32) (s : FaRun) : Prop where
  mapped : s.cu.cmdmem ≠ none
  slotSz : s.cu.slotSz = memory.slotSz
  numSlots : s.cu.numSlots = memory.numSlots
  maxCredits : s.cu.maxCredits = fdr
  credits : s.cu.credits + s.slots.length = memory.limit fdr
  nonneg : 0 ≤ s.cu.credits
  running : s.cu.runCnts = s.slots.length
  submitted : s.cu.submitted.length = s.slots.length
  started : s.slots.length ≤ s.started
  head : s.cu.headSlot.toNat = s.started % memory.numSlots.toNat * memory.slotSz.toNat
  slots : s.slots = (List.range' (s.started - s.slots.length) s.slots.length).map
    fun k => k % memory.numSlots.toNat * memory.slotSz.toNat

section Steps

variable {memory : FaMemory} {fdr : BitVec 32} {s t : FaRun}

theorem FaMemory.numSlots_lt (memory : FaMemory) : memory.numSlots.toNat < 2 ^ 30 := by
  have least := Nat.mul_le_mul_right memory.numSlots.toNat memory.word
  have fits := memory.fits
  omega

theorem FaMemory.limit_le (memory : FaMemory) (fdr : BitVec 32) :
    memory.limit fdr ≤ memory.numSlots.toNat :=
  Nat.min_le_left _ _

theorem creditLimit_eq {cu : XrtCuFa} (numSlots : cu.numSlots = memory.numSlots)
    (maxCredits : cu.maxCredits = fdr) : cu.creditLimit = memory.limit fdr := by
  have few := memory.numSlots_lt
  rw [XrtCuFa.creditLimit, FaMemory.limit, numSlots, maxCredits]
  split
  next less =>
    rw [BitVec.lt_def] at less
    rw [BitVec.toInt_eq_toNat_of_lt (by omega), Nat.min_eq_left less.le]
  next more =>
    rw [BitVec.lt_def] at more
    rw [BitVec.toInt_eq_toNat_of_lt (by omega), Nat.min_eq_right (Nat.not_lt.mp more)]

/-- No credit is lost to the limit. -/
theorem cuFaFreeCredit_eq {cu : XrtCuFa} (numSlots : cu.numSlots = memory.numSlots)
    (maxCredits : cu.maxCredits = fdr) {count : Nat} (within : cu.credits + count ≤ memory.limit fdr) :
    cu.cuFaFreeCredit count = { cu with credits := cu.credits + count } := by
  rw [XrtCuFa.cuFaFreeCredit, creditLimit_eq numSlots maxCredits, min_eq_left within]

theorem faInit_inv (memory : FaMemory) (fdr tcr mswr : BitVec 32) :
    FaInv memory fdr (faInit memory fdr tcr mswr) := by
  have configured : faInit memory fdr tcr mswr = ⟨{ xrtCuFaInit fdr tcr mswr with
      cmdmem := some memory.vaddr
      paddr := memory.dev
      slotSz := memory.slotSz
      numSlots := memory.numSlots
      credits := memory.limit fdr }, 0, []⟩ := by
    rw [faInit, XrtCuFa.xrtFaCfgUpdate, if_neg memory.mapped]
    simp only
    rw [@creditLimit_eq memory fdr _ rfl rfl]
  rw [configured]
  constructor <;> simp [xrtCuFaInit]

theorem faStep_submit (mapped : s.cu.cmdmem ≠ none) {xcmd : KdsCommand}
    (stepped : faStep s (.submit xcmd) = some t) :
    s.cu.credits ≠ 0 ∧ ∃ mem descMsw writes, t = ⟨{ s.cu with
      mem := mem
      credits := s.cu.credits - 1
      runCnts := s.cu.runCnts + 1
      descMsw := descMsw
      writes := writes
      submitted := s.cu.submitted ++ [xcmd]
      headSlot := if s.cu.headSlot + s.cu.slotSz = s.cu.slotSz * s.cu.numSlots then 0
        else s.cu.headSlot + s.cu.slotSz }, s.started + 1, s.slots ++ [s.cu.headSlot.toNat]⟩ := by
  have skip : ¬ (false = true ∨ s.cu.cmdmem = none) := by simp [mapped]
  by_cases credit : s.cu.credits = 0
  · simp [faStep, XrtCuFa.cuFaAllocCredit, credit] at stepped
  · refine ⟨credit, ?_⟩
    simp only [faStep, XrtCuFa.cuFaAllocCredit, if_pos credit, if_neg credit,
      XrtCuFa.cuFaSubmitConfig, XrtCuFa.cuFaConfigure, if_neg skip] at stepped
    split at stepped
    next => simp at stepped
    next =>
      simp only [Option.map_some, Option.some.injEq] at stepped
      obtain ⟨descMsw, writes, start⟩ := @XrtCuFa.cuFaStart_eq { s.cu with
        credits := s.cu.credits - 1
        mem := fun a => if ({ s.cu with credits := s.cu.credits - 1 }.descRange xcmd).Has a
          then XrtCuFa.descByte xcmd (a - s.cu.headSlot.toNat) else s.cu.mem a
        submitted := s.cu.submitted ++ [xcmd] } mapped
      rw [start] at stepped
      exact ⟨_, descMsw, writes, stepped.symm⟩

section

variable (inv : FaInv memory fdr s)
include inv

theorem faStep_check {force : Bool} {finished : Nat}
    (stepped : faStep s (.check force finished) = some t) :
    finished ≤ s.slots.length ∧ ∃ checkCount, t = ⟨{ s.cu with
      checkCount := checkCount
      taskCnt := s.cu.taskCnt + BitVec.ofNat 32 finished
      runCnts := s.cu.runCnts - finished
      credits := s.cu.credits + finished
      submitted := s.cu.submitted.drop finished
      completed := s.cu.completed
        ++ (s.cu.submitted.take finished).map (·.withStatus .completed) },
      s.started, s.slots.drop finished⟩ := by
  have few := memory.numSlots_lt
  have limit := memory.limit_le fdr
  have credits := inv.credits
  have nonneg := inv.nonneg
  have running := inv.running
  rw [faStep] at stepped
  split at stepped
  next le =>
    obtain ⟨checkCount, check⟩ :=
      @XrtCuFa.cuFaCheck_eq s.cu inv.mapped force finished (by omega) (by omega)
    rw [check] at stepped
    refine ⟨le, checkCount, ?_⟩
    rw [← Option.some.inj stepped]
    refine congrArg (FaRun.mk · s.started (s.slots.drop finished)) ?_
    apply @cuFaFreeCredit_eq memory fdr
    · exact inv.numSlots
    · exact inv.maxCredits
    · simp only
      omega
  next => cases stepped

theorem FaInv.nextSlot : (if s.cu.headSlot + s.cu.slotSz = s.cu.slotSz * s.cu.numSlots then 0
        else s.cu.headSlot + s.cu.slotSz : BitVec 32).toNat
      = (s.started + 1) % memory.numSlots.toNat * memory.slotSz.toNat := by
  have fits := memory.fits
  have positive : 0 < memory.slotSz.toNat := Nat.zero_lt_of_lt memory.word
  have within := Nat.mod_lt s.started memory.slots
  have head := inv.head
  -- neither the sum nor the product wraps
  have next : (s.cu.headSlot + s.cu.slotSz).toNat
      = (s.started % memory.numSlots.toNat + 1) * memory.slotSz.toNat := by
    have below := Nat.mul_le_mul_right memory.slotSz.toNat within
    rw [Nat.succ_eq_add_one, Nat.mul_comm memory.numSlots.toNat] at below
    rw [BitVec.toNat_add, head, inv.slotSz, Nat.add_mul, Nat.one_mul] at *
    exact Nat.mod_eq_of_lt (below.trans_lt fits)
  have whole : (s.cu.slotSz * s.cu.numSlots).toNat
      = memory.numSlots.toNat * memory.slotSz.toNat := by
    rw [BitVec.toNat_mul, inv.slotSz, inv.numSlots, Nat.mod_eq_of_lt fits, Nat.mul_comm]
  rw [succ_mod_of_lt memory.slots]
  by_cases last : s.started % memory.numSlots.toNat + 1 = memory.numSlots.toNat
  · have same : s.cu.headSlot + s.cu.slotSz = s.cu.slotSz * s.cu.numSlots :=
      BitVec.eq_of_toNat_eq (by rw [next, whole, last])
    rw [if_pos same, if_pos last]
    simp
  · have differs : s.cu.headSlot + s.cu.slotSz ≠ s.cu.slotSz * s.cu.numSlots := by
      intro same
      rw [same, whole] at next
      exact last (Nat.eq_of_mul_eq_mul_right positive next).symm
    rw [if_neg differs, if_neg last, next]

theorem FaInv.submit {xcmd : KdsCommand}
    (stepped : faStep s (.submit xcmd) = some t) : FaInv memory fdr t := by
  have next := inv.nextSlot
  obtain ⟨credit, mem, descMsw, writes, rfl⟩ := faStep_submit inv.mapped stepped
  have credits := inv.credits
  have nonneg := inv.nonneg
  have running := inv.running
  have submitted := inv.submitted
  have started := inv.started
  constructor
  case slots =>
    -- the new command takes the slot at the head
    have from_same : s.started + 1 - (s.slots.length + 1) = s.started - s.slots.length := by omega
    have last : s.started - s.slots.length + s.slots.length = s.started := by omega
    simp only [List.length_append, List.length_singleton]
    rw [from_same, List.range'_1_concat, List.map_append, List.map_singleton, last, ← inv.slots,
      inv.head]
  case head => exact next
  case mapped => exact inv.mapped
  case slotSz => exact inv.slotSz
  case numSlots => exact inv.numSlots
  case maxCredits => exact inv.maxCredits
  all_goals
    simp only [List.length_append, List.length_singleton]
    omega

theorem FaInv.check {force : Bool} {finished : Nat}
    (stepped : faStep s (.check force finished) = some t) : FaInv memory fdr t := by
  obtain ⟨le, checkCount, rfl⟩ := faStep_check inv stepped
  have credits := inv.credits
  have nonneg := inv.nonneg
  have running := inv.running
  have submitted := inv.submitted
  have started := inv.started
  constructor
  case slots =>
    have from_later : s.started - (s.slots.length - finished)
        = s.started - s.slots.length + finished * 1 := by omega
    simp only [List.length_drop]
    rw [from_later, ← List.drop_range', List.map_drop, ← inv.slots]
  case head => exact inv.head
  case mapped => exact inv.mapped
  case slotSz => exact inv.slotSz
  case numSlots => exact inv.numSlots
  case maxCredits => exact inv.maxCredits
  all_goals
    simp only [List.length_drop]
    omega

theorem FaInv.step {e : FaEvent} (stepped : faStep s e = some t) : FaInv memory fdr t := by
  cases e with
  | submit xcmd => exact inv.submit stepped
  | check force finished => exact inv.check stepped
  | getComplete =>
    have unchanged : ∃ completed, t = { s with cu := { s.cu with completed := completed } } := by
      rw [faStep, XrtCuFa.cuFaGetComplete] at stepped
      split at stepped
      next => exact ⟨s.cu.completed, (Option.some.inj stepped).symm⟩
      next => exact ⟨_, (Option.some.inj stepped).symm⟩
    obtain ⟨completed, rfl⟩ := unchanged
    exact { inv with }

theorem FaInv.safe : FaSafe memory fdr s := by
  have credits := inv.credits
  have nonneg := inv.nonneg
  exact ⟨by omega, _, Nat.mod_lt _ memory.slots, inv.head⟩

theorem FaInv.right_iff (e : FaEvent) : FaRight memory s e ↔ FaFits memory s e := by
  cases e with
  | submit xcmd =>
    refine imp_congr_right fun credit => and_congr_right fun word => ?_
    have credits := inv.credits
    have nonneg := inv.nonneg
    have limit := memory.limit_le fdr
    have last : s.started - s.slots.length + s.slots.length = s.started :=
      Nat.sub_add_cancel inv.started
    have used (slot : Nat) : slot ∈ s.slots ↔ ∃ k, (s.started - s.slots.length ≤ k ∧ k < s.started)
        ∧ k % memory.numSlots.toNat * memory.slotSz.toNat = slot := by
      conv_lhs => rw [inv.slots]
      rw [List.mem_map]
      simp only [List.mem_range'_1, last]
    rw [← disjoint_slots_iff (by omega) inv.started (Nat.zero_lt_of_lt memory.word) (by omega),
      XrtCuFa.descRange, inv.head]
    constructor
    · intro apart k low high
      exact apart _ ((used _).mpr ⟨k, ⟨low, high⟩, rfl⟩)
    · intro apart slot member
      obtain ⟨k, ⟨low, high⟩, rfl⟩ := (used slot).mp member
      exact apart k low high
  | check force finished =>
    refine iff_of_true (fun t stepped => ?_) trivial
    obtain ⟨-, checkCount, rfl⟩ := faStep_check inv stepped
    exact ⟨rfl, rfl⟩
  | getComplete => exact Iff.rfl

end

end Steps

/-- Slots are reused safely exactly as long as every descriptor fits below the next slot in use. The
driver does not compare the size of a command, which comes from the user, with that of a slot. -/
theorem fa_slots_right_iff (memory : FaMemory) (fdr tcr mswr : BitVec 32) (events : List FaEvent) :
    (Always faStep (FaSafe memory fdr) (faInit memory fdr tcr mswr) events
        ∧ Along faStep (FaRight memory) (faInit memory fdr tcr mswr) events)
      ↔ Along faStep (FaFits memory) (faInit memory fdr tcr mswr) events :=
  always_along_iff (P := FaInv memory fdr) (fun _ _ _ inv _ => inv.step) (fun _ inv => inv.safe)
    (fun _ e inv => (inv.right_iff e).mpr)
    (fun _ e inv failed => Or.inl fun right => failed ((inv.right_iff e).mp right))
    (faInit_inv memory fdr tcr mswr) events

/-- Two slots of 64 bytes. -/
def twoSlots : FaMemory where
  bar := 0x1000
  dev := 0x1000
  vaddr := 0x1000
  slotSz := 64
  numSlots := 2
  mapped := by decide
  slots := by decide
  word := by decide
  fits := by decide

def faCommand (isize : Nat) : KdsCommand := ⟨0, 0, .new, .start, 0, .regmap, [1], isize⟩

/-- A command of 68 bytes in the first slot reaches the descriptor of the one that runs. -/
theorem fa_long_command_rewrites :
    ¬ Along faStep (FaRight twoSlots) (faInit twoSlots 16 0 0)
      [.submit (faCommand 64), .submit (faCommand 64), .check true 1, .submit (faCommand 68)] := by
  intro along
  have last := (((along.2 _ rfl).2 _ rfl).2 _ rfl).1
  exact (last (by decide)).2 64 (by decide) 64 ⟨by decide, by decide⟩

end Xrt.Cu
