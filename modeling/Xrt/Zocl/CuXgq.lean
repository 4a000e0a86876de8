import Mathlib.Data.List.Nodup
import Xrt.Cu.Hls
import Xrt.Errno
import Xrt.Lib.Run

/-!
# Responses on a CU queue of zocl

The worker of a CU queue fetches commands and gives the start commands to KDS, which notifies their
end from another thread. Unknown commands, commands for which there is no memory and commands that
KDS refuses are answered by the worker itself. Every answer goes through `zcu_xgq_cmd_complete` and
`zxgq_send_response`.

Every command gets one entry with its id and its return code. The state in the entry is another
matter: its condition assigns `KDS_SKCRASHED` instead of comparing with it, so that every command
reads as aborted. The notification of a refused command has the status of the command structure, which KDS
has not touched, and an index that the mask of CUs has no word for is written behind the mask.
-/
namespace Xrt.Zocl

open Xrt.Lib Xrt.Cu

def XGQ_CMD_OP_START_CUIDX : BitVec 16 := 0x100
def XGQ_CMD_OP_START_CUIDX_KV : BitVec 16 := 0x102

def XGQ_CMD_STATE_COMPLETED : BitVec 14 := 0
def XGQ_CMD_STATE_ABORTED : BitVec 14 := 1

def ZCU_XGQ_FAST_PATH : Bool := false

def statusValue : KdsStatus → BitVec 32
  | .new => 0
  | .queued => 1
  | .running => 2
  | .completed => 3
  | .error => 4
  | .abort => 5
  | .timeout => 6
  | .skcrashed => 7

/-- A command: the two words of `struct xgq_cmd_sq_hdr`, and the payload. -/
structure Cmd where
  header0 : BitVec 32
  header1 : BitVec 32
  payload : List (BitVec 32)
  deriving DecidableEq, Repr

def Cmd.opcode (cmd : Cmd) : BitVec 16 := cmd.header0.extractLsb' 0 16
def Cmd.cid (cmd : Cmd) : BitVec 16 := cmd.header1.extractLsb' 0 16
def Cmd.cuIdx (cmd : Cmd) : Nat := (cmd.header1.extractLsb' 16 12).toNat
def Cmd.cuDomain (cmd : Cmd) : BitVec 4 := cmd.header1.extractLsb' 28 4

def zxgqFetchRequest (slotSize : Nat) (slot : List (BitVec 32)) : Cmd :=
  let header0 := slot.getD 0 0
  let count := (header0.extractLsb' 16 15).toNat
  let count := if count + 8 > slotSize then slotSize - 8 else count
  ⟨header0, slot.getD 1 0, (slot.drop 2).take (count / 4)⟩

/-- `struct xgq_com_queue_entry` -/
structure Entry where
  cid : BitVec 16
  cstate : BitVec 14
  result : BitVec 32
  rcode : BitVec 32
  deriving DecidableEq, Repr

def zcuXgqCmdComplete (cmd : Cmd) (ret : BitVec 32) (status : KdsStatus) : Option Entry :=
  if !(ret == 0 && ZCU_XGQ_FAST_PATH) then
    let result := statusValue status
    -- the condition of the state is this assignment
    let status := KdsStatus.skcrashed
    some ⟨cmd.cid,
      if statusValue status != 0 then XGQ_CMD_STATE_ABORTED else XGQ_CMD_STATE_COMPLETED, result, ret⟩
  else none

/-- The tries of `zxgq_send_response`, 50 ms apart: whether one of them found room. -/
def sendLoop (room : Nat → Bool) : Nat → Nat → Bool
  | 0, _ => false
  | fuel + 1, attempt =>
    if room attempt then true
    else if (attempt + 1) * 50 ≥ 50 * 100 then false
    else sendLoop room fuel (attempt + 1)

def zxgqSendResponse (room : Nat → Bool) : Bool := sendLoop room 100 0

/-- The host makes room before the last try. -/
theorem zxgqSendResponse_iff (room : Nat → Bool) :
    zxgqSendResponse room = true ↔ ∃ attempt < 100, room attempt = true := by
  have tries : ∀ fuel attempt, fuel + attempt = 100 →
      (sendLoop room fuel attempt = true ↔ ∃ k, attempt ≤ k ∧ k < 100 ∧ room k = true) := by
    intro fuel
    induction fuel with
    | zero =>
      intro attempt total
      refine iff_of_false (by simp [sendLoop]) ?_
      omega
    | succ fuel ih =>
      intro attempt total
      rw [sendLoop]
      split_ifs with here last
      · exact iff_of_true rfl ⟨attempt, le_rfl, by omega, here⟩
      · refine iff_of_false (by simp) ?_
        rintro ⟨k, from_, below, found⟩
        obtain rfl : k = attempt := by omega
        exact here found
      · rw [ih (attempt + 1) (by omega)]
        constructor
        · rintro ⟨k, from_, below, found⟩
          exact ⟨k, by omega, below, found⟩
        · rintro ⟨k, from_, below, found⟩
          have other : k ≠ attempt := by
            rintro rfl
            exact here found
          exact ⟨k, by omega, below, found⟩
  rw [zxgqSendResponse, tries 100 0 rfl]
  constructor
  · rintro ⟨k, -, below, found⟩
    exact ⟨k, below, found⟩
  · rintro ⟨k, below, found⟩
    exact ⟨k, Nat.zero_le k, below, found⟩

/-! ### Worker and KDS -/

/-- What KDS gets for a start command, with the number of the command. -/
structure KdsRequest where
  number : Nat
  opcode : KdsOpcode
  cuMask : List (BitVec 32)
  numMask : Nat
  deriving DecidableEq, Repr

/-- `zcu_xgq_cmd_start_cuidx` for a command structure that was allocated. The second component tells
whether the write to `cu_mask` stays inside. -/
def startRequest (number : Nat) (cmd : Cmd) : KdsRequest × Bool :=
  let maskIdx := cmd.cuIdx / 32
  let bitIdx := cmd.cuIdx % 32
  (⟨number, if cmd.cuDomain ≠ 0 then .startSk else .start,
    (List.replicate 4 (0 : BitVec 32)).set maskIdx (1 <<< bitIdx),
    if maskIdx < 4 then maskIdx + 1 else 0⟩, decide (maskIdx < 4))

/-- A response, with the number of the command it is for and how the command ended. -/
structure Answer where
  number : Nat
  status : KdsStatus
  rcode : BitVec 32
  entry : Option Entry
  deriving DecidableEq, Repr

structure System where
  consumed : List Cmd
  atKds : List KdsRequest
  answers : List Answer
  dropped : List Nat
  corrupted : Bool
  deriving DecidableEq, Repr

def initial : System := ⟨[], [], [], [], false⟩

/-- The command ended with a status and a return code, and `zcu_xgq_cmd_complete` is called with
`passed` for the status. -/
def System.complete (s : System) (number : Nat) (cmd : Cmd) (rcode : BitVec 32) (status passed : KdsStatus)
    (room : Nat → Bool) : System :=
  if zxgqSendResponse room then
    { s with answers := s.answers ++ [⟨number, status, rcode, zcuXgqCmdComplete cmd rcode passed⟩] }
  else { s with dropped := s.dropped ++ [number] }

def errorCode (error : Int) : BitVec 32 := BitVec.ofInt 32 (-error)

/-- `zcu_xgq_cmd_handler`, where KDS returns `err` for a start command. -/
def System.handle (s : System) (number : Nat) (cmd : Cmd) (allocated : Bool) (err : Int)
    (room : Nat → Bool) : System :=
  if cmd.opcode = XGQ_CMD_OP_START_CUIDX ∨ cmd.opcode = XGQ_CMD_OP_START_CUIDX_KV then
    if allocated then
      let request := startRequest number cmd
      let s := { s with corrupted := s.corrupted || !request.2 }
      if err = 0 then { s with atKds := s.atKds ++ [request.1] }
      -- `kds_add_command` notifies `KDS_ERROR`; the callback looks at the status of the command
      else s.complete number cmd 0 .error .new room
    else s.complete number cmd (errorCode ENOMEM) .completed .completed room
  else s.complete number cmd (errorCode ENOTTY) .completed .completed room

inductive Event
  /-- The worker takes a slot of the submission queue. -/
  | consume (slotSize : Nat) (slot : List (BitVec 32)) (allocated : Bool) (err : Int)
      (room : Nat → Bool)
  /-- KDS ends the command of a request. -/
  | notify (number : Nat) (status : KdsStatus) (rcode : BitVec 32) (room : Nat → Bool)

def step (s : System) : Event → Option System
  | .consume slotSize slot allocated err room =>
    let cmd := zxgqFetchRequest slotSize slot
    some ({ s with consumed := s.consumed ++ [cmd] }.handle s.consumed.length cmd allocated err room)
  | .notify number status rcode room =>
    if s.atKds.any (·.number == number) then
      match s.consumed[number]? with
      | some cmd =>
        some ({ s with atKds := s.atKds.filter (·.number != number) }.complete number cmd rcode status
          status room)
      | none => none
    else none

/-! ### The responses -/

/-- Every command that KDS does not have any more is answered once. -/
def System.Once (s : System) : Prop :=
  ∀ number < s.consumed.length, (s.answers.map (·.number)).count number =
    if number ∈ s.atKds.map (·.number) then 0 else 1

/-- The entry is there, with the id and the return code of its command. -/
def Answer.Carries (consumed : List Cmd) (a : Answer) : Prop :=
  ∃ cmd e, consumed[a.number]? = some cmd ∧ a.entry = some e ∧ e.cid = cmd.cid ∧ e.rcode = a.rcode

/-- The entry has the final status as its result, and the state that belongs to it. -/
def Answer.Right (a : Answer) : Prop :=
  ∃ e, a.entry = some e ∧ e.result = statusValue a.status ∧
    e.cstate = if a.status = .skcrashed then XGQ_CMD_STATE_ABORTED else XGQ_CMD_STATE_COMPLETED

structure System.Responses (s : System) : Prop where
  intact : s.corrupted = false
  once : s.Once
  carries : ∀ a ∈ s.answers, a.Carries s.consumed
  right : ∀ a ∈ s.answers, a.Right

/-- The host keeps the completion queue from staying full. -/
def Event.Roomy : Event → Prop
  | .consume _ _ _ _ room => ∃ attempt < 100, room attempt = true
  | .notify _ _ _ room => ∃ attempt < 100, room attempt = true

/-- A start command of one of the 128 CUs that KDS takes, or the end of a crashed PS kernel. -/
def Event.Good : Event → Prop
  | .consume slotSize slot allocated err _ =>
    let cmd := zxgqFetchRequest slotSize slot
    (cmd.opcode = XGQ_CMD_OP_START_CUIDX ∨ cmd.opcode = XGQ_CMD_OP_START_CUIDX_KV) ∧
      allocated = true ∧ cmd.cuIdx < 128 ∧ err = 0
  | .notify _ status _ _ => status = .skcrashed

/-- What every run keeps: each command is at KDS, answered or dropped, once. -/
structure Inv (s : System) : Prop where
  accounts : (s.answers.map (·.number) ++ s.dropped ++ s.atKds.map (·.number)).Perm
    (List.range s.consumed.length)
  carries : ∀ a ∈ s.answers, a.Carries s.consumed

/-- What the entries tell. -/
def System.Marked (s : System) : Prop := s.corrupted = false ∧ ∀ a ∈ s.answers, a.Right

section Steps

variable {s t : System} {number : Nat} {cmd : Cmd} {rcode : BitVec 32} {status passed : KdsStatus}
  {room : Nat → Bool}

theorem zcuXgqCmdComplete_eq (cmd : Cmd) (ret : BitVec 32) (status : KdsStatus) :
    zcuXgqCmdComplete cmd ret status =
      some ⟨cmd.cid, XGQ_CMD_STATE_ABORTED, statusValue status, ret⟩ := by
  simp [zcuXgqCmdComplete, ZCU_XGQ_FAST_PATH, statusValue]

theorem statusValue_injective : Function.Injective statusValue := by
  intro a b
  cases a <;> cases b <;> decide

theorem complete_of_room (found : ∃ attempt < 100, room attempt = true) :
    s.complete number cmd rcode status passed room =
      { s with answers := s.answers ++ [⟨number, status, rcode,
        some ⟨cmd.cid, XGQ_CMD_STATE_ABORTED, statusValue passed, rcode⟩⟩] } := by
  rw [System.complete, if_pos ((zxgqSendResponse_iff room).mpr found), zcuXgqCmdComplete_eq]

theorem right_iff :
    (⟨number, status, rcode, some ⟨cmd.cid, XGQ_CMD_STATE_ABORTED, statusValue passed, rcode⟩⟩ :
      Answer).Right ↔ status = .skcrashed ∧ passed = .skcrashed := by
  have differ : XGQ_CMD_STATE_ABORTED ≠ XGQ_CMD_STATE_COMPLETED := by decide
  constructor
  · rintro ⟨e, made, result, cstate⟩
    cases made
    have crashed : status = .skcrashed := by
      by_contra other
      rw [if_neg other] at cstate
      exact differ cstate
    exact ⟨crashed, (statusValue_injective result).trans crashed⟩
  · rintro ⟨rfl, rfl⟩
    exact ⟨_, rfl, rfl, rfl⟩

theorem Inv.complete (s : System) (rcode : BitVec 32) (status passed : KdsStatus)
    (room_ : ∃ attempt < 100, room attempt = true)
    (accounts : (s.answers.map (·.number) ++ s.dropped ++ s.atKds.map (·.number) ++ [number]).Perm
      (List.range s.consumed.length))
    (carries : ∀ a ∈ s.answers, a.Carries s.consumed) (found : s.consumed[number]? = some cmd) :
    Inv (s.complete number cmd rcode status passed room) ∧
      (s.complete number cmd rcode status passed room).dropped = s.dropped ∧
      ((s.complete number cmd rcode status passed room).Marked ↔
        s.Marked ∧ status = .skcrashed ∧ passed = .skcrashed) := by
  rw [complete_of_room room_]
  refine ⟨⟨?_, ?_⟩, rfl, ?_⟩
  · refine List.Perm.trans ?_ accounts
    simp only [List.map_append, List.map_cons, List.map_nil, List.append_assoc]
    refine List.Perm.append_left _ ?_
    rw [List.singleton_append, ← List.append_assoc]
    exact (List.perm_append_singleton number _).symm
  · intro a member
    rcases List.mem_append.mp member with earlier | last
    · exact carries a earlier
    · rw [List.mem_singleton.mp last]
      exact ⟨cmd, _, found, rfl, rfl, rfl⟩
  · unfold System.Marked
    simp only [List.forall_mem_append, List.forall_mem_singleton, right_iff, and_assoc]

theorem Answer.Carries.mono {consumed : List Cmd} {a : Answer} (carries : a.Carries consumed)
    (cmd : Cmd) : a.Carries (consumed ++ [cmd]) := by
  obtain ⟨own, e, found, rest⟩ := carries
  have inside : a.number < consumed.length := (List.getElem?_eq_some_iff.mp found).1
  exact ⟨own, e, by rw [List.getElem?_append_left inside]; exact found, rest⟩

theorem Inv.consume {allocated : Bool} {err : Int} (inv : Inv s) (cmd : Cmd)
    (room_ : ∃ attempt < 100, room attempt = true)
    (made : { s with consumed := s.consumed ++ [cmd] }.handle s.consumed.length cmd allocated err room = t) :
    Inv t ∧ t.dropped = s.dropped ∧
      (t.Marked ↔ s.Marked ∧
        (cmd.opcode = XGQ_CMD_OP_START_CUIDX ∨ cmd.opcode = XGQ_CMD_OP_START_CUIDX_KV) ∧
        allocated = true ∧ cmd.cuIdx < 128 ∧ err = 0) := by
  have carries : ∀ a ∈ s.answers, a.Carries (s.consumed ++ [cmd]) :=
    fun a member => (inv.carries a member).mono cmd
  have found : (s.consumed ++ [cmd])[s.consumed.length]? = some cmd := List.getElem?_concat_length
  have accounts : (s.answers.map (·.number) ++ s.dropped ++ s.atKds.map (·.number) ++
      [s.consumed.length]).Perm (List.range (s.consumed ++ [cmd]).length) := by
    rw [List.length_append, List.length_singleton, List.range_succ]
    exact inv.accounts.append_right _
  have inside : decide (cmd.cuIdx / 32 < 4) = true ↔ cmd.cuIdx < 128 := by
    rw [decide_eq_true_iff]
    omega
  unfold System.handle at made
  split_ifs at made with start alloc taken
  · -- KDS takes the command
    subst made
    refine ⟨⟨?_, carries⟩, rfl, ?_⟩
    · simp only [List.map_append, List.map_cons, List.map_nil, ← List.append_assoc]
      exact accounts
    · simp only [System.Marked, startRequest, Bool.or_eq_false_iff, Bool.not_eq_false', inside, start,
        alloc, taken, true_and, and_true]
      exact and_right_comm
  · -- KDS refuses the command
    obtain ⟨next, kept, marked⟩ := Inv.complete
      { s with
        consumed := s.consumed ++ [cmd]
        corrupted := s.corrupted || !(startRequest s.consumed.length cmd).2 }
      0 .error .new room_ accounts carries found
    subst made
    refine ⟨next, kept, iff_of_false (fun m => ?_) (fun good => taken good.2.2.2.2)⟩
    cases (marked.mp m).2.1
  · obtain ⟨next, kept, marked⟩ := Inv.complete { s with consumed := s.consumed ++ [cmd] }
      (errorCode ENOMEM) .completed .completed room_ accounts carries found
    subst made
    refine ⟨next, kept, iff_of_false (fun m => ?_) (fun good => alloc good.2.2.1)⟩
    cases (marked.mp m).2.1
  · obtain ⟨next, kept, marked⟩ := Inv.complete { s with consumed := s.consumed ++ [cmd] }
      (errorCode ENOTTY) .completed .completed room_ accounts carries found
    subst made
    refine ⟨next, kept, iff_of_false (fun m => ?_) (fun good => start good.2.1)⟩
    cases (marked.mp m).2.1

theorem perm_filter_request {requests : List KdsRequest}
    (nodup : (requests.map (·.number)).Nodup) (member : number ∈ requests.map (·.number)) :
    (requests.map (·.number)).Perm
      ((requests.filter (·.number != number)).map (·.number) ++ [number]) := by
  have filtered : (requests.filter (·.number != number)).map (·.number) =
      (requests.map (·.number)).erase number := by
    rw [nodup.erase_eq_filter, List.filter_map]
    rfl
  rw [filtered]
  exact (List.perm_cons_erase member).trans (List.perm_append_singleton number _).symm

theorem step_spec {e : Event} (inv : Inv s) (roomy : e.Roomy) (stepped : step s e = some t) :
    Inv t ∧ t.dropped = s.dropped ∧ (t.Marked ↔ s.Marked ∧ e.Good) := by
  cases e with
  | consume slotSize slot allocated err room => exact inv.consume _ roomy (Option.some.inj stepped)
  | notify number status rcode room =>
    rw [step] at stepped
    split_ifs at stepped with there
    cases found : s.consumed[number]? with
    | none =>
      rw [found] at stepped
      cases stepped
    | some cmd =>
      rw [found] at stepped
      obtain rfl := Option.some.inj stepped
      have member : number ∈ s.atKds.map (·.number) := by
        obtain ⟨request, inside, same⟩ := List.any_eq_true.mp there
        exact List.mem_map.mpr ⟨request, inside, beq_iff_eq.mp same⟩
      have nodup : (s.atKds.map (·.number)).Nodup :=
        (List.nodup_append.mp (inv.accounts.nodup_iff.mpr List.nodup_range)).2.1
      have accounts := ((perm_filter_request nodup member).append_left
        (s.answers.map (·.number) ++ s.dropped)).symm.trans inv.accounts
      rw [← List.append_assoc] at accounts
      obtain ⟨next, kept, marked⟩ :=
        Inv.complete { s with atKds := s.atKds.filter (·.number != number) } rcode status status roomy
          accounts inv.carries found
      exact ⟨next, kept, marked.trans (and_congr_right fun _ => and_self_iff)⟩

theorem Inv.once (inv : Inv s) (none : s.dropped = []) : s.Once := by
  intro number bound
  have total := inv.accounts.count_eq number
  rw [none, List.append_nil, List.count_append, List.count_eq_one_of_mem List.nodup_range
    (List.mem_range.mpr bound)] at total
  have nodup : (s.atKds.map (·.number)).Nodup :=
    (List.nodup_append.mp (inv.accounts.nodup_iff.mpr List.nodup_range)).2.1
  split_ifs with waiting
  · rw [List.count_eq_one_of_mem nodup waiting] at total
    omega
  · rw [List.count_eq_zero_of_not_mem waiting] at total
    exact total

end Steps

/-- **Every command of a CU queue is answered once.** While the host keeps the completion queue from
staying full, every command that is not at KDS has one entry, with its id and its return code. The
entries also have the final status and the state that belongs to it, and no memory was written behind
the mask of CUs, exactly if all commands are start commands of the 128 CUs that KDS takes and end as
a crash of their PS kernel. -/
theorem responses_iff (events : List Event) (s : System) (ran : run step initial events = some s)
    (roomy : ∀ e ∈ events, e.Roomy) :
    s.Once ∧ (∀ a ∈ s.answers, a.Carries s.consumed) ∧
      (s.Responses ↔ ∀ e ∈ events, e.Good) := by
  have start : Inv initial ∧ initial.dropped = [] := ⟨⟨.refl _, nofun⟩, rfl⟩
  have preserved : ∀ s e t, Inv s ∧ s.dropped = [] → e.Roomy → step s e = some t →
      Inv t ∧ t.dropped = [] := by
    intro s e t inv roomy stepped
    obtain ⟨next, kept, -⟩ := step_spec inv.1 roomy stepped
    exact ⟨next, kept.trans inv.2⟩
  have exact_ : ∀ s e t, Inv s ∧ s.dropped = [] → e.Roomy → step s e = some t →
      (t.Marked ↔ s.Marked ∧ e.Good) :=
    fun s e t inv roomy stepped => (step_spec inv.1 roomy stepped).2.2
  obtain ⟨⟨inv, none⟩, marked⟩ := run_good_iff_forall preserved exact_ start roomy ran
  refine ⟨inv.once none, inv.carries, ?_⟩
  have fresh : initial.Marked := ⟨rfl, nofun⟩
  rw [and_iff_right fresh] at marked
  rw [← marked]
  exact ⟨fun all => ⟨all.intact, all.right⟩,
    fun all => ⟨all.1, inv.once none, inv.carries, all.2⟩⟩

/-- A PS kernel that crashes. -/
def crash : List Event :=
  [.consume 64 [0x100, 0x10010007] true 0 (fun _ => true), .notify 0 .skcrashed 0 (fun _ => true)]

theorem responses_crash :
    ∃ s, run step initial crash = some s ∧ s.Responses :=
  ⟨_, rfl, (responses_iff crash _ rfl (by
    intro e member
    simp only [crash, List.mem_cons, List.not_mem_nil, or_false] at member
    rcases member with rfl | rfl
    · exact ⟨0, by decide, rfl⟩
    · exact ⟨0, by decide, rfl⟩)).2.2.mpr (by
    intro e member
    simp only [crash, List.mem_cons, List.not_mem_nil, or_false] at member
    rcases member with rfl | rfl
    · exact ⟨.inl (by decide), rfl, by decide, rfl⟩
    · exact rfl)⟩

/-- A command that ends as it should. -/
def success : List Event :=
  [.consume 64 [0x100, 0x00010007] true 0 (fun _ => true), .notify 0 .completed 0 (fun _ => true)]

theorem completed_reads_aborted :
    ∃ s, run step initial success = some s ∧
      s.answers = [⟨0, .completed, 0, some ⟨7, XGQ_CMD_STATE_ABORTED, 3, 0⟩⟩] ∧ ¬ s.Responses := by
  refine ⟨_, rfl, by decide, fun all => ?_⟩
  obtain ⟨e, made, -, cstate⟩ := all.right _ (List.mem_singleton_self _)
  cases made
  exact absurd cstate (by decide)

end Xrt.Zocl
