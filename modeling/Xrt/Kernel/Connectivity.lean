import Xrt.Lib.Run
import Mathlib.Tactic

/-!
# Compute units and memory banks

A run object begins with all compute units of its kernel. Each buffer that is set as an argument
removes the units that are not connected to its bank. If that would remove all of them, the buffer
is cloned to a bank that the first unit of the kernel is connected to.
-/
namespace Xrt.Kernel

open Lib

def maxCus : Nat := 128

def cusPerWord : Nat := 32

/-! ### Connectivity -/

/-- `ip_context`: the index of the unit, and for each argument up to the last that is connected the
memory-mapped banks it is connected to. -/
structure Ip where
  cuidx : Nat
  connections : List (List Nat)
deriving DecidableEq, Repr

/-- Banks that are the same memory share an index; what is not memory-mapped has none. -/
abbrev Encoding := Nat → Option Nat

namespace Ip

/-- `none`: the bank is not memory-mapped and the access throws, or the argument is behind the last
one that is connected, which is not checked. -/
def validConnection (encoding : Encoding) (ip : Ip) (argidx memidx : Nat) : Option Bool :=
  match ip.connections[argidx]?, encoding memidx with
  | some mems, some encoded => some (mems.any fun mem => encoding mem = some encoded)
  | _, _ => none

/-- The largest index, or -1. `none`: throws. -/
def argMemidx (ip : Ip) (argidx : Nat) : Option Int :=
  ip.connections[argidx]?.map fun mems => mems.foldl (fun memidx mem => max memidx (mem : Int)) (-1)

/-- One of the banks of the argument is the same memory. -/
def Connected (encoding : Encoding) (ip : Ip) (argidx memidx : Nat) : Prop :=
  ∃ mems, ip.connections[argidx]? = some mems
    ∧ ∃ mem ∈ mems, encoding mem = encoding memidx ∧ (encoding memidx).isSome

end Ip

/-! ### CU masks -/

/-- `cumask.set` for each unit. -/
def cumaskOf (ips : List Ip) : BitVec maxCus :=
  ips.foldl (fun mask ip => mask ||| BitVec.twoPow maxCus ip.cuidx) 0

abbrev PacketData := Nat → BitVec 32

def encodeCu (data : PacketData) (cuIdx : Nat) : PacketData :=
  let maskIdx := cuIdx / cusPerWord
  let idxInMask := cuIdx - maskIdx * cusPerWord
  Function.update data maskIdx (data maskIdx ||| BitVec.twoPow 32 idxInMask)

def encodeComputeUnits (data : PacketData) (cumask : BitVec maxCus) (numCumasks : Nat) :
    PacketData :=
  let data := fun i => if i < numCumasks then 0 else data i
  (List.range maxCus).foldl (fun data cuIdx =>
    if cumask.getLsbD cuIdx then encodeCu data cuIdx else data) data

def Encoded (data : PacketData) (numCumasks cu : Nat) : Prop :=
  cu / cusPerWord < numCumasks ∧ (data (cu / cusPerWord)).getLsbD (cu % cusPerWord) = true

/-! ### Kernels and runs -/

structure KernelImpl where
  encoding : Encoding
  ips : List Ip
  numArgs : Nat
  nonempty : ips ≠ []
  /-- The mask throws for other units. -/
  bounded : ∀ ip ∈ ips, ip.cuidx < maxCus

namespace KernelImpl

def numCumasks (kernel : KernelImpl) : Nat :=
  kernel.ips.foldl (fun num ip => max num (ip.cuidx / cusPerWord + 1)) 1

def groupId (kernel : KernelImpl) (argno : Nat) : Option (BitVec 16) :=
  ((kernel.ips.head kernel.nonempty).argMemidx argno).map (BitVec.ofInt 16)

end KernelImpl

structure RunImpl where
  ips : List Ip
  cumask : BitVec maxCus
  encodeCumasks : Bool
  data : PacketData
  /-- The bank of the buffer whose address was last written for an argument. -/
  banks : Nat → Option (BitVec 16)

namespace RunImpl

variable (kernel : KernelImpl)

/-- The packet is initialized with all units of the kernel. -/
def create (data : PacketData) : RunImpl where
  ips := kernel.ips
  cumask := cumaskOf kernel.ips
  encodeCumasks := false
  data := encodeComputeUnits data (cumaskOf kernel.ips) kernel.numCumasks
  banks := fun _ => none

/-- Erases the other units. -/
def keepIps (run : RunImpl) (left : List Ip) : RunImpl :=
  { run with ips := left, cumask := cumaskOf left, encodeCumasks := true }

/-- `none`: throws. -/
def validateIpArgConnectivity (run : RunImpl) (argidx grpidx : Nat) : Option (Bool × RunImpl) :=
  if run.ips.any fun ip => ip.validConnection kernel.encoding argidx grpidx = none then none
  else
    let left := run.ips.filter fun ip =>
      ip.validConnection kernel.encoding argidx grpidx = some true
    if left = [] then some (false, run)
    else if left.length = run.ips.length then some (true, run)
    else some (true, run.keepIps left)

/-- The bank of the buffer to use: that of the caller's buffer or that of its clone. -/
def validateBoAtIndex (run : RunImpl) (index : Nat) (bank : BitVec 16) :
    Option (BitVec 16 × RunImpl) :=
  match run.validateIpArgConnectivity kernel index bank.toNat with
  | none => none
  | some (true, run) => some (bank, run)
  | some (false, run) => (kernel.groupId index).map fun clone => (clone, run)

def setArgValue (run : RunImpl) (index : Nat) (bank : BitVec 16) : RunImpl :=
  { run with banks := Function.update run.banks index (some bank) }

def setArgAtIndex (run : RunImpl) (index : Nat) (bank : BitVec 16) : Option RunImpl :=
  match run.validateBoAtIndex kernel index bank with
  | none => none
  | some (bank, run) => if index < kernel.numArgs then some (run.setArgValue index bank) else none

def setCus (run : RunImpl) (mask : BitVec maxCus) : Option RunImpl :=
  let left := run.ips.filter fun ip => mask.getLsbD ip.cuidx
  if left = [] then none else some (run.keepIps left)

/-- Encodes the units of the run if they are not those in the packet. -/
def prepStart (run : RunImpl) : RunImpl :=
  if run.encodeCumasks then
    { run with
      data := encodeComputeUnits run.data run.cumask kernel.numCumasks
      encodeCumasks := false }
  else run

inductive Call
  | setArgAtIndex (index : Nat) (bank : BitVec 16)
  | setCus (mask : BitVec maxCus)
  | start

/-- `none`: the call throws. -/
def step (run : RunImpl) : Call → Option RunImpl
  | .setArgAtIndex index bank => run.setArgAtIndex kernel index bank
  | .setCus mask => run.setCus mask
  | .start => some (run.prepStart kernel)

end RunImpl

/-! ### Facts about masks -/

variable {ips : List Ip} {ip : Ip} {cu argidx memidx : Nat} {encoding : Encoding}

theorem Ip.validConnection_iff :
    ip.validConnection encoding argidx memidx = some true ↔ ip.Connected encoding argidx memidx := by
  unfold validConnection Connected
  cases connected : ip.connections[argidx]? with
  | none => simp
  | some mems => cases encoded : encoding memidx <;> simp

instance : Decidable (ip.Connected encoding argidx memidx) :=
  decidable_of_iff _ Ip.validConnection_iff

theorem getLsbD_foldl_twoPow (ips : List Ip) (mask : BitVec maxCus) :
    (ips.foldl (fun mask ip => mask ||| BitVec.twoPow maxCus ip.cuidx) mask).getLsbD cu = true
      ↔ mask.getLsbD cu = true ∨ cu < maxCus ∧ ∃ ip ∈ ips, ip.cuidx = cu := by
  induction ips generalizing mask with
  | nil => simp
  | cons ip ips ih =>
    grind

theorem getLsbD_cumaskOf :
    (cumaskOf ips).getLsbD cu = true ↔ cu < maxCus ∧ ∃ ip ∈ ips, ip.cuidx = cu := by
  rw [cumaskOf, getLsbD_foldl_twoPow]
  simp

theorem getLsbD_encodeCu (data : PacketData) (cuIdx cu : Nat) :
    (encodeCu data cuIdx (cu / cusPerWord)).getLsbD (cu % cusPerWord)
      = ((data (cu / cusPerWord)).getLsbD (cu % cusPerWord) || decide (cuIdx = cu)) := by
  have same : cuIdx / cusPerWord = cu / cusPerWord ∧ cuIdx % cusPerWord = cu % cusPerWord
      ↔ cuIdx = cu := by
    constructor
    · rintro ⟨word, bit⟩
      rw [← Nat.div_add_mod cuIdx cusPerWord, word, bit, Nat.div_add_mod]
    · rintro rfl
      exact ⟨rfl, rfl⟩
  -- the bit inside the word, as the source computes it
  have bit : cuIdx - cuIdx / cusPerWord * cusPerWord = cuIdx % cusPerWord := by
    rw [Nat.mul_comm, ← Nat.mod_eq_sub]
  have inside : cuIdx % cusPerWord < 32 := Nat.mod_lt _ (by decide)
  unfold encodeCu
  by_cases word : cuIdx / cusPerWord = cu / cusPerWord
  · rw [bit, word, Function.update_self, BitVec.getLsbD_or, BitVec.getLsbD_twoPow]
    simp only [inside, decide_true, Bool.true_and, ← same, word, true_and]
  · have differs : cuIdx ≠ cu := fun equal => word (same.mpr equal).1
    rw [Function.update_of_ne (Ne.symm word), decide_eq_false differs, Bool.or_false]

theorem getLsbD_foldl_encodeCu (cumask : BitVec maxCus) (cus : List Nat) (data : PacketData) :
    ((cus.foldl (fun data cuIdx => if cumask.getLsbD cuIdx then encodeCu data cuIdx else data)
        data) (cu / cusPerWord)).getLsbD (cu % cusPerWord) = true
      ↔ (data (cu / cusPerWord)).getLsbD (cu % cusPerWord) = true
        ∨ cu ∈ cus ∧ cumask.getLsbD cu = true := by
  induction cus generalizing data with
  | nil => simp
  | cons first cus ih =>
    rw [List.foldl_cons, ih]
    split
    next set =>
      rw [getLsbD_encodeCu data first cu]
      grind
    next unset =>
      grind

theorem encoded_encodeComputeUnits {data : PacketData} {cumask : BitVec maxCus} {numCumasks : Nat}
    (covered : ∀ cu, cumask.getLsbD cu = true → cu / cusPerWord < numCumasks) :
    Encoded (encodeComputeUnits data cumask numCumasks) numCumasks cu
      ↔ cumask.getLsbD cu = true := by
  rw [Encoded, encodeComputeUnits, getLsbD_foldl_encodeCu]
  constructor
  · rintro ⟨word, bit | ⟨-, bit⟩⟩
    · -- the words of the masks were cleared before
      simp [word] at bit
    · exact bit
  · intro bit
    have low : cu < maxCus := by
      by_contra high
      rw [BitVec.getLsbD_of_ge _ _ (Nat.le_of_not_lt high)] at bit
      exact absurd bit Bool.false_ne_true
    exact ⟨covered cu bit, .inr ⟨List.mem_range.mpr low, bit⟩⟩

/-- The number of masks grows with each unit to one that covers it. -/
theorem foldl_numCumasks (ips : List Ip) (num : Nat) :
    num ≤ ips.foldl (fun num ip => max num (ip.cuidx / cusPerWord + 1)) num
      ∧ ∀ ip ∈ ips, ip.cuidx / cusPerWord
        < ips.foldl (fun num ip => max num (ip.cuidx / cusPerWord + 1)) num := by
  induction ips generalizing num with
  | nil => simp
  | cons first ips ih =>
    obtain ⟨grows, each⟩ := ih (max num (first.cuidx / cusPerWord + 1))
    refine ⟨(le_max_left _ _).trans grows, List.forall_mem_cons.mpr ⟨?_, each⟩⟩
    exact Nat.lt_of_succ_le ((le_max_right _ _).trans grows)

theorem KernelImpl.cuidx_lt_numCumasks (kernel : KernelImpl) (member : ip ∈ kernel.ips) :
    ip.cuidx / cusPerWord < kernel.numCumasks :=
  (foldl_numCumasks kernel.ips 1).2 ip member

theorem KernelImpl.encoded_iff (kernel : KernelImpl) (inKernel : ips ⊆ kernel.ips)
    (data : PacketData) :
    Encoded (encodeComputeUnits data (cumaskOf ips) kernel.numCumasks) kernel.numCumasks cu
      ↔ ∃ ip ∈ ips, ip.cuidx = cu := by
  rw [encoded_encodeComputeUnits, getLsbD_cumaskOf]
  · constructor
    · exact And.right
    · rintro ⟨ip, member, rfl⟩
      exact ⟨kernel.bounded ip (inKernel member), ip, member, rfl⟩
  · intro cu set
    obtain ⟨-, ip, member, rfl⟩ := getLsbD_cumaskOf.mp set
    exact kernel.cuidx_lt_numCumasks (inKernel member)

/-! ### What the calls keep -/

namespace RunImpl

structure Masked (kernel : KernelImpl) (run : RunImpl) : Prop where
  inKernel : run.ips ⊆ kernel.ips
  nonempty : run.ips ≠ []
  cumask : run.cumask = cumaskOf run.ips
  encoded : run.encodeCumasks = false →
    ∀ cu, Encoded run.data kernel.numCumasks cu ↔ ∃ ip ∈ run.ips, ip.cuidx = cu

def Connects (kernel : KernelImpl) (run : RunImpl) : Prop :=
  ∀ index bank, run.banks index = some bank →
    ∀ ip ∈ run.ips, ip.Connected kernel.encoding index bank.toNat

/-- No unit was removed, or some were and others are left. -/
def Filtered (run kept : RunImpl) : Prop :=
  kept = run ∨ ∃ left, left ≠ [] ∧ left ⊆ run.ips ∧ kept = run.keepIps left

variable {kernel : KernelImpl} {run kept after : RunImpl} {index : Nat} {bank : BitVec 16}

theorem Filtered.banks_eq (filtered : Filtered run kept) : kept.banks = run.banks := by
  rcases filtered with rfl | ⟨left, -, -, rfl⟩ <;> rfl

theorem Filtered.subset (filtered : Filtered run kept) : kept.ips ⊆ run.ips := by
  rcases filtered with rfl | ⟨left, -, fewer, rfl⟩
  · exact List.Subset.refl _
  · exact fewer

theorem setArgValue_banks_self (run : RunImpl) (index : Nat) (bank : BitVec 16) :
    (run.setArgValue index bank).banks index = some bank :=
  Function.update_self ..

theorem setArgValue_banks_of_ne {other : Nat} (differs : other ≠ index) :
    (run.setArgValue index bank).banks other = run.banks other :=
  Function.update_of_ne differs ..

theorem validateIpArgConnectivity_cases {grpidx : Nat} {valid : Bool}
    (made : run.validateIpArgConnectivity kernel index grpidx = some (valid, kept)) :
    (valid = true ∧ Filtered run kept
        ∧ ∀ ip ∈ kept.ips, ip.Connected kernel.encoding index grpidx)
      ∨ (valid = false ∧ kept = run
        ∧ ∀ ip ∈ run.ips, ¬ ip.Connected kernel.encoding index grpidx) := by
  simp only [validateIpArgConnectivity] at made
  split_ifs at made with throws none all
  · -- no unit is connected, and none is removed
    cases made
    refine .inr ⟨rfl, rfl, fun ip member connected => ?_⟩
    have removed := List.filter_eq_nil_iff.mp none ip member
    exact removed (decide_eq_true (Ip.validConnection_iff.mpr connected))
  · -- all units are connected, and the mask stays
    cases made
    refine .inl ⟨rfl, .inl rfl, fun ip member => ?_⟩
    have every := List.length_filter_eq_length_iff.mp all ip member
    exact Ip.validConnection_iff.mp (of_decide_eq_true every)
  · cases made
    refine .inl ⟨rfl, .inr ⟨_, none, List.filter_sublist.subset, rfl⟩, fun ip member => ?_⟩
    have both := List.mem_filter.mp member
    exact Ip.validConnection_iff.mp (of_decide_eq_true both.2)

theorem setArgAtIndex_cases (made : run.setArgAtIndex kernel index bank = some after) :
    (∃ kept, Filtered run kept
        ∧ (∀ ip ∈ kept.ips, ip.Connected kernel.encoding index bank.toNat)
        ∧ after = kept.setArgValue index bank)
      ∨ (∀ ip ∈ run.ips, ¬ ip.Connected kernel.encoding index bank.toNat)
        ∧ ∃ clone, kernel.groupId index = some clone ∧ after = run.setArgValue index clone := by
  unfold setArgAtIndex validateBoAtIndex at made
  cases validated : run.validateIpArgConnectivity kernel index bank.toNat with
  | none => simp [validated] at made
  | some result =>
    obtain ⟨valid, kept⟩ := result
    rcases validateIpArgConnectivity_cases validated with
      ⟨rfl, filtered, connected⟩ | ⟨rfl, rfl, unconnected⟩
    · simp only [validated] at made
      split_ifs at made
      cases made
      exact .inl ⟨kept, filtered, connected, rfl⟩
    · -- the fallback ignores which units are left
      simp only [validated] at made
      cases clone : kernel.groupId index with
      | none => simp [clone] at made
      | some bank =>
        simp only [clone, Option.map_some] at made
        split_ifs at made
        cases made
        exact .inr ⟨unconnected, bank, rfl, rfl⟩

section

variable (masked : Masked kernel run)
include masked

theorem Masked.filtered (filtered : Filtered run kept) : Masked kernel kept := by
  rcases filtered with rfl | ⟨left, nonempty, fewer, rfl⟩
  · exact masked
  · exact ⟨List.Subset.trans fewer masked.inKernel, nonempty, rfl, fun encoded => by cases encoded⟩

theorem Masked.setArgValue : Masked kernel (run.setArgValue index bank) :=
  ⟨masked.inKernel, masked.nonempty, masked.cumask, masked.encoded⟩

theorem Masked.prepStart : Masked kernel (run.prepStart kernel) := by
  unfold RunImpl.prepStart
  split
  · -- the mask is written anew
    refine ⟨masked.inKernel, masked.nonempty, masked.cumask, fun _ cu => ?_⟩
    rw [masked.cumask]
    exact kernel.encoded_iff masked.inKernel run.data
  · exact masked

end

theorem prepStart_encodeCumasks (kernel : KernelImpl) (run : RunImpl) :
    (run.prepStart kernel).encodeCumasks = false := by
  unfold RunImpl.prepStart
  split
  · rfl
  next unset => exact Bool.not_eq_true _ ▸ unset

theorem prepStart_ips (kernel : KernelImpl) (run : RunImpl) :
    (run.prepStart kernel).ips = run.ips := by
  unfold RunImpl.prepStart
  split <;> rfl

theorem prepStart_banks (kernel : KernelImpl) (run : RunImpl) :
    (run.prepStart kernel).banks = run.banks := by
  unfold RunImpl.prepStart
  split <;> rfl

theorem setCus_filtered {mask : BitVec maxCus} (made : run.setCus mask = some after) :
    Filtered run after := by
  simp only [setCus] at made
  split_ifs at made with none
  cases made
  exact .inr ⟨_, none, List.filter_sublist.subset, rfl⟩

theorem Connects.filtered (connects : Connects kernel run) (filtered : Filtered run kept) :
    Connects kernel kept := by
  intro index bank written ip member
  rw [filtered.banks_eq] at written
  exact connects index bank written ip (filtered.subset member)

theorem Connects.setArgValue (connects : Connects kernel run)
    (connected : ∀ ip ∈ run.ips, ip.Connected kernel.encoding index bank.toNat) :
    Connects kernel (run.setArgValue index bank) := by
  intro other used written ip member
  by_cases same : other = index
  · subst same
    rw [setArgValue_banks_self] at written
    cases written
    exact connected ip member
  · rw [setArgValue_banks_of_ne same] at written
    exact connects other used written ip member

theorem Connects.prepStart (connects : Connects kernel run) :
    Connects kernel (run.prepStart kernel) := by
  intro index bank written ip member
  rw [prepStart_banks] at written
  rw [prepStart_ips] at member
  exact connects index bank written ip member

theorem step_masked {call : Call} (masked : Masked kernel run)
    (made : run.step kernel call = some after) : Masked kernel after := by
  cases call with
  | setArgAtIndex index bank =>
    rcases setArgAtIndex_cases made with ⟨kept, filtered, -, rfl⟩ | ⟨-, clone, -, rfl⟩
    · exact (masked.filtered filtered).setArgValue
    · exact masked.setArgValue
  | setCus mask => exact masked.filtered (setCus_filtered made)
  | start =>
    cases made
    exact masked.prepStart

theorem create_masked (kernel : KernelImpl) (data : PacketData) :
    Masked kernel (create kernel data) where
  inKernel := List.Subset.refl _
  nonempty := kernel.nonempty
  cumask := rfl
  encoded := fun _ _ => kernel.encoded_iff (List.Subset.refl _) data

/-! ### Starts -/

structure StartMasks (kernel : KernelImpl) (run : RunImpl) : Prop where
  nonempty : ∃ cu, Encoded (run.prepStart kernel).data kernel.numCumasks cu
  inKernel : ∀ cu, Encoded (run.prepStart kernel).data kernel.numCumasks cu →
    ∃ ip ∈ kernel.ips, ip.cuidx = cu
  units : ∀ cu, Encoded (run.prepStart kernel).data kernel.numCumasks cu
    ↔ ∃ ip ∈ run.ips, ip.cuidx = cu

theorem Masked.startMasks (masked : Masked kernel run) : StartMasks kernel run := by
  have encoded := masked.prepStart.encoded (prepStart_encodeCumasks kernel run)
  rw [prepStart_ips] at encoded
  obtain ⟨ip, member⟩ := List.exists_mem_of_ne_nil _ masked.nonempty
  refine ⟨⟨ip.cuidx, (encoded _).mpr ⟨ip, member, rfl⟩⟩, fun cu set => ?_, encoded⟩
  obtain ⟨ip, member, index⟩ := (encoded cu).mp set
  exact ⟨ip, masked.inKernel member, index⟩

/-- If a buffer must be cloned, the units that are left are connected to the bank of the clone. -/
def CloneFits (kernel : KernelImpl) (run : RunImpl) : Call → Prop
  | .setArgAtIndex index bank =>
    (∀ ip ∈ run.ips, ¬ ip.Connected kernel.encoding index bank.toNat) →
      ∀ clone, kernel.groupId index = some clone →
        ∀ ip ∈ run.ips, ip.Connected kernel.encoding index clone.toNat
  | _ => True

theorem step_connects {call : Call} (connects : Connects kernel run)
    (fits : CloneFits kernel run call) (made : run.step kernel call = some after) :
    Connects kernel after := by
  cases call with
  | setArgAtIndex index bank =>
    rcases setArgAtIndex_cases made with
      ⟨kept, filtered, connected, rfl⟩ | ⟨unconnected, clone, group, rfl⟩
    · exact (connects.filtered filtered).setArgValue connected
    · exact connects.setArgValue (fits unconnected clone group)
  | setCus mask => exact connects.filtered (setCus_filtered made)
  | start =>
    cases made
    exact connects.prepStart

theorem step_not_connects {call : Call} (unfit : ¬ CloneFits kernel run call)
    (made : run.step kernel call = some after) : ¬ Connects kernel after := by
  cases call with
  | setArgAtIndex index bank =>
    simp only [CloneFits, not_forall] at unfit
    obtain ⟨unconnected, clone, group, ip, member, apart⟩ := unfit
    rcases setArgAtIndex_cases made with
      ⟨kept, filtered, connected, rfl⟩ | ⟨-, clone', group', rfl⟩
    · -- the units left would be connected, and there are some
      intro connects
      rcases filtered with rfl | ⟨left, nonempty, fewer, rfl⟩
      · exact unconnected ip member (connected ip member)
      · obtain ⟨other, among⟩ := List.exists_mem_of_ne_nil _ nonempty
        exact unconnected other (fewer among) (connected other among)
    · -- the bank of the clone is the one the unit is not connected to
      cases group.symm.trans group'
      exact fun connects => apart (connects index clone (setArgValue_banks_self ..) ip member)
  | setCus mask => exact absurd trivial unfit
  | start => exact absurd trivial unfit

/-- The masks of a start are right after any calls. The units are connected to the banks of the
buffers as long as each clone is in a bank that all units left are connected to. -/
theorem connects_iff {calls : List Call} {data : PacketData} {last : RunImpl}
    (ran : Lib.run (step kernel) (create kernel data) calls = some last) :
    Always (step kernel) (StartMasks kernel) (create kernel data) calls
      ∧ (Always (step kernel) (Connects kernel) (create kernel data) calls
        ↔ Along (step kernel) (CloneFits kernel) (create kernel data) calls) := by
  constructor
  · exact always_of_invariant (fun _ _ _ => step_masked) (fun _ => Masked.startMasks)
      (create_masked kernel data) calls
  · refine always_iff_along (fun _ _ _ => step_connects) (fun _ => id) ?_ ?_ ran
    · exact fun _ _ _ _ => step_not_connects
    · intro index bank written
      cases written

def twoBanks : KernelImpl where
  encoding := some
  ips := [⟨0, [[0], [0]]⟩, ⟨1, [[1], [1]]⟩]
  numArgs := 2
  nonempty := by decide
  bounded := by decide

/-- The first buffer leaves the first unit only, and the clone of the second one is in its bank. -/
theorem clone_in_right_bank :
    ∃ last, Lib.run (step twoBanks) (create twoBanks fun _ => 0)
        [.setArgAtIndex 0 0, .setArgAtIndex 1 1, .start] = some last
      ∧ last.banks 1 = some 0
      ∧ Always (step twoBanks) (Connects twoBanks) (create twoBanks fun _ => 0)
        [.setArgAtIndex 0 0, .setArgAtIndex 1 1, .start] := by
  refine ⟨_, rfl, rfl, (connects_iff rfl).2.mpr ?_⟩
  refine along_cons rfl (fun none => ?_) (along_cons rfl (fun _ clone group => ?_)
    (along_cons rfl trivial trivial))
  · exact absurd (by decide) (none ⟨0, [[0], [0]]⟩ (by decide))
  · cases group
    decide

/-- The first buffer leaves the second unit only, and the clone of the second one is in bank 0. -/
theorem clone_in_wrong_bank :
    ∃ last, Lib.run (step twoBanks) (create twoBanks fun _ => 0)
        [.setArgAtIndex 0 1, .setArgAtIndex 1 0, .start] = some last
      ∧ last.ips = [⟨1, [[1], [1]]⟩]
      ∧ last.banks 1 = some 0
      ∧ ¬ Connects twoBanks last := by
  refine ⟨_, rfl, rfl, rfl, fun connects => ?_⟩
  have connected := connects 1 0 rfl ⟨1, [[1], [1]]⟩ List.mem_cons_self
  revert connected
  decide

end RunImpl

end Xrt.Kernel
