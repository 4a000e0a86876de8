import Mathlib.Logic.Function.Basic
import Xrt.Errno
import Xrt.Lib.Ledger

/-!
# Fetching a soft-kernel command

`zocl_sk_getcmd_ioctl` waits for a command, takes it off the list and answers the process that called
it. A call leaves a ledger of its mutexes, and one of the memory that it owns: the command and its
packet are its own from the moment they are off the list.

An empty slot keeps the mutex that the search for the slot took. If it is slot 0, the call waits for
itself when it looks at slot 0 once more.
-/
namespace Xrt.Zocl.SoftKernel

open Lib

def MAX_PR_SLOT_NUM : Nat := 32
def ERT_SK_CONFIG : Nat := 8
def ERESTARTSYS : Int := 512

abbrev Uuid := BitVec 128

/-- `sk_lock`, and `slot_xclbin_lock` of a slot. -/
inductive Mutex
  | sk
  | slot (i : Nat)
deriving DecidableEq, Repr

inductive Block
  | command
  | packet
deriving DecidableEq, Repr

/-- `scu_image`; the handle is negative until there is one. -/
structure ScuImage where
  scuName : String
  bohdl : Int
deriving DecidableEq, Repr

structure SoftKrnl where
  metaBohdl : Nat → Int
  img : Nat → List ScuImage

structure ConfigSkImage where
  startCuidx : Nat
  numCus : Nat
  skName : String
  skUuid : Uuid
deriving DecidableEq, Repr

structure SoftKrnlCmd where
  opcode : Nat
  packet : ConfigSkImage
deriving DecidableEq, Repr

/-- `drm_zocl_sk_getcmd`. -/
structure Kdata where
  opcode : Nat
  startCuidx : Nat := 0
  cuNums : Nat := 0
  bohdl : Int := 0
  metaBohdl : Int := 0
  uuid : Option Uuid := none
  name : String := ""
deriving DecidableEq, Repr

/-- What the caller waits for: the list is found empty so many times before it has a command, or
before a signal interrupts the last wait. -/
structure Waiting where
  wakes : Nat
  interrupted : Bool
deriving DecidableEq, Repr

/-- The objects that `drm_gem_handle_create` is called for. -/
inductive GemObject
  | metadata (slot : Nat)
  | image (slot i : Nat)
deriving DecidableEq, Repr

/-- A call: its return value, none if it never returns, and its two ledgers. -/
structure Call where
  ret : Option Int
  kdata : Option Kdata := none
  sk : Option SoftKrnl := none
  locks : List (Lib.Entry Mutex) := []
  memory : List (Lib.Entry Block) := []

/-- The mutex entries of the wait, up to the removal of the command or the signal. -/
def waitLog : (wakes : Nat) → List (Lib.Entry Mutex)
  | 0 => [.acquire .sk, .release .sk]
  | wakes + 1 => [.acquire .sk, .release .sk] ++ waitLog wakes

/-- The loop that looks for the slot of the UUID, over the slots from `i` on. -/
def findSlot (slots : Nat → Option Uuid) (uuid : Uuid) :
    (left i : Nat) → List (Lib.Entry Mutex) × Option Nat
  | 0, _ => ([], none)
  | left + 1, i =>
    match slots i with
    | none =>
      let later := findSlot slots uuid left (i + 1)
      (.acquire (.slot i) :: later.1, later.2)
    | some slotUuid =>
      if slotUuid = uuid then ([.acquire (.slot i), .release (.slot i)], some i)
      else
        let later := findSlot slots uuid left (i + 1)
        (.acquire (.slot i) :: .release (.slot i) :: later.1, later.2)

variable (gem : GemObject → Option Int)

/-- The handle of the metadata; -1 is `0xffffffff`. -/
def metaHandle (sk : SoftKrnl) (slot : Nat) : Int × SoftKrnl :=
  if 0 ≤ sk.metaBohdl slot then (sk.metaBohdl slot, sk)
  else
    match gem (.metadata slot) with
    | none => (-1, sk)
    | some handle => (handle, { sk with metaBohdl := Function.update sk.metaBohdl slot handle })

/-- The handle of the first image with the name. -/
def imageHandle (sk : SoftKrnl) (slot : Nat) (name : String) : Int × SoftKrnl :=
  match (sk.img slot).findIdx? (·.scuName == name) with
  | none => (-1, sk)
  | some i =>
    let image := (sk.img slot).getD i ⟨name, -1⟩
    if 0 ≤ image.bohdl then (image.bohdl, sk)
    else
      match gem (.image slot i) with
      | none => (-1, sk)
      | some handle =>
        let images := (sk.img slot).set i { image with bohdl := handle }
        (handle, { sk with img := Function.update sk.img slot images })

/-- The part for a configuration command, after the ledgers of what came before. -/
def configCommand (sk : SoftKrnl) (cmd : ConfigSkImage) (slots : Nat → Option Uuid)
    (locks : List (Lib.Entry Mutex)) (memory : List (Lib.Entry Block)) : Call :=
  let search := findSlot slots cmd.skUuid MAX_PR_SLOT_NUM 0
  match search.2 with
  | none => ⟨some (-EINVAL), some ⟨ERT_SK_CONFIG, 0, 0, 0, 0, none, ""⟩, some sk, locks ++ search.1, memory⟩
  | some slot =>
    let first := metaHandle gem sk slot
    let second := imageHandle gem first.2 slot cmd.skName
    let again := locks ++ search.1 ++ [.acquire (.slot 0)]
    -- a mutex that the call holds blocks it
    match replayLocks [] again with
    | none => ⟨none, none, some second.2, again, memory⟩
    | some _ =>
      ⟨some 0, some ⟨ERT_SK_CONFIG, cmd.startCuidx, cmd.numCus, second.1, first.1, slots 0, cmd.skName⟩,
        some second.2, again ++ [.release (.slot 0)], memory ++ [.release .command]⟩

def zoclSkGetcmdIoctl (sk : Option SoftKrnl) (waiting : Waiting) (scmd : SoftKrnlCmd)
    (slots : Nat → Option Uuid) : Call :=
  match sk with
  | none => { ret := some 0 }
  | some sk =>
    let locks := waitLog waiting.wakes
    if waiting.interrupted then { ret := some (-ERESTARTSYS), sk := some sk, locks := locks }
    else
      let memory := [.acquire .command, .acquire .packet]
      if scmd.opcode = ERT_SK_CONFIG then configCommand gem sk scmd.packet slots locks memory
      else ⟨some 0, some { opcode := scmd.opcode }, some sk, locks, memory ++ [.release .command]⟩

/-! ### The mutexes -/

variable {slots : Nat → Option Uuid} {uuid : Uuid} {left i : Nat} {held : List Mutex}

/-- The mutexes that the search does not release, the last one first. -/
def kept (slots : Nat → Option Uuid) (uuid : Uuid) : (left i : Nat) → List Mutex
  | 0, _ => []
  | left + 1, i =>
    match slots i with
    | none => kept slots uuid left (i + 1) ++ [.slot i]
    | some slotUuid => if slotUuid = uuid then [] else kept slots uuid left (i + 1)

/-- Every slot that the search comes to is loaded. -/
def LoadedUpTo (slots : Nat → Option Uuid) (uuid : Uuid) (left i : Nat) : Prop :=
  ∀ k, i ≤ k → k < i + left → slots k = none → ∃ j, i ≤ j ∧ j < k ∧ slots j = some uuid

theorem replayLocks_waitLog (wakes : Nat) : replayLocks [] (waitLog wakes) = some [] := by
  induction wakes with
  | zero => rfl
  | succ wakes ih =>
    rw [waitLog, replayLocks_append]
    exact ih

theorem replayLocks_findSlot (free : ∀ j, i ≤ j → .slot j ∉ held) :
    replayLocks held (findSlot slots uuid left i).1 = some (kept slots uuid left i ++ held) := by
  induction left generalizing i held with
  | zero => rfl
  | succ left ih =>
    have here := free i (Nat.le_refl _)
    have later (j : Nat) (le : i + 1 ≤ j) : .slot j ∉ held := free j (by omega)
    rw [findSlot, kept]
    cases slots i with
    | none =>
      simp only [replayLocks, if_neg here, List.append_assoc, List.singleton_append]
      refine ih fun j le member => ?_
      rcases List.mem_cons.mp member with same | member
      · cases same
        omega
      · exact later j le member
    | some slotUuid =>
      dsimp only
      split_ifs with same
      · simp [replayLocks, here]
      · simp only [replayLocks, if_neg here, List.mem_cons_self, if_true, List.erase_cons_head]
        exact ih later

theorem kept_eq_nil_iff : kept slots uuid left i = [] ↔ LoadedUpTo slots uuid left i := by
  induction left generalizing i with
  | zero =>
    refine iff_of_true rfl fun k le lt => ?_
    omega
  | succ left ih =>
    rw [kept]
    cases here : slots i with
    | none =>
      refine iff_of_false (by simp) fun loaded => ?_
      obtain ⟨j, le, lt, -⟩ := loaded i (Nat.le_refl _) (by omega) here
      omega
    | some slotUuid =>
      dsimp only
      split_ifs with same
      · -- every empty slot lies behind this one
        refine iff_of_true rfl fun k le lt empty => ⟨i, Nat.le_refl i, ?_, same ▸ here⟩
        refine Nat.lt_of_le_of_ne le fun first => ?_
        subst first
        rw [here] at empty
        cases empty
      · rw [ih]
        constructor
        · intro loaded k le lt empty
          have behind : i + 1 ≤ k := by
            refine Nat.lt_of_le_of_ne le fun first => ?_
            subst first
            rw [here] at empty
            cases empty
          obtain ⟨j, low, high, has⟩ := loaded k behind (by omega) empty
          exact ⟨j, by omega, high, has⟩
        · intro loaded k le lt empty
          obtain ⟨j, low, high, has⟩ := loaded k (by omega) (by omega) empty
          refine ⟨j, Nat.lt_of_le_of_ne low fun first => same ?_, high, has⟩
          subst first
          rw [here] at has
          exact Option.some.inj has

variable {gem : GemObject → Option Int} {sk : SoftKrnl} {cmd : ConfigSkImage}
  {locks : List (Lib.Entry Mutex)} {memory : List (Lib.Entry Block)}

theorem configCommand_locks_iff (before : replayLocks [] locks = some []) :
    replayLocks [] (configCommand gem sk cmd slots locks memory).locks = some [] ↔
      LoadedUpTo slots cmd.skUuid MAX_PR_SLOT_NUM 0 := by
  have search : replayLocks [] (locks ++ (findSlot slots cmd.skUuid MAX_PR_SLOT_NUM 0).1) =
      some (kept slots cmd.skUuid MAX_PR_SLOT_NUM 0) := by
    rw [replayLocks_append, before, Option.bind_some, replayLocks_findSlot (by simp), List.append_nil]
  rw [← kept_eq_nil_iff]
  simp only [configCommand]
  split
  · rw [search, Option.some.injEq]
  · split
    next blocked =>
      rw [blocked]
      refine iff_of_false (by simp) fun nil => ?_
      rw [replayLocks_append, search, nil] at blocked
      cases blocked
    next held again =>
      rw [replayLocks_append, search, Option.bind_some, replayLocks] at again
      split_ifs at again with taken
      rw [replayLocks_append, replayLocks_append, search]
      simp [replayLocks, taken]

/-- The packet stays allocated. -/
theorem configCommand_memory :
    replay [] (configCommand gem sk cmd slots locks [.acquire .command, .acquire .packet]).memory ≠
      some [] := by
  simp only [configCommand]
  split
  · simp [replay]
  · split <;> simp [replay]

/-- A call gives back all its mutexes if and only if it does not come to an empty slot, and all its
memory if and only if it took no command. -/
theorem getcmd_releases_iff (gem : GemObject → Option Int) (sk : Option SoftKrnl) (waiting : Waiting)
    (scmd : SoftKrnlCmd) (slots : Nat → Option Uuid) :
    (replayLocks [] (zoclSkGetcmdIoctl gem sk waiting scmd slots).locks = some [] ↔
        sk = none ∨ waiting.interrupted = true ∨ scmd.opcode ≠ ERT_SK_CONFIG ∨
          LoadedUpTo slots scmd.packet.skUuid MAX_PR_SLOT_NUM 0) ∧
      (Settled (zoclSkGetcmdIoctl gem sk waiting scmd slots).memory ↔
        sk = none ∨ waiting.interrupted = true) := by
  cases sk with
  | none => exact ⟨iff_of_true rfl (.inl rfl), iff_of_true rfl (.inl rfl)⟩
  | some sk =>
    have waited := replayLocks_waitLog waiting.wakes
    simp only [zoclSkGetcmdIoctl, reduceCtorEq, false_or]
    split_ifs with interrupted config
    · simp [interrupted, waited, Settled, replay]
    · simp [interrupted, config, configCommand_locks_iff waited, Settled, configCommand_memory]
    · simp [interrupted, config, waited, Settled, replay]

/-- The answer to a command for the xclbin with UUID 7. -/
def sampleCall (slots : Nat → Option Uuid) : Call :=
  zoclSkGetcmdIoctl (fun _ => none) (some ⟨fun _ => 1, fun _ => []⟩) ⟨0, false⟩
    ⟨ERT_SK_CONFIG, ⟨0, 1, "k", 7⟩⟩ slots

/-- Without an xclbin the mutexes stay taken. With slot 0 empty and the UUID in slot 1, the call never
returns. With every slot loaded, the packet is lost. -/
theorem getcmd_keeps :
    (sampleCall fun _ => none).ret = some (-EINVAL) ∧
      replayLocks [] (sampleCall fun _ => none).locks ≠ some [] ∧
      (sampleCall fun i => if i = 1 then some 7 else none).ret = none ∧
      (sampleCall fun _ => some 7).ret = some 0 ∧
      replay [] (sampleCall fun _ => some 7).memory = some [.packet] := by
  decide

end Xrt.Zocl.SoftKernel
