import Xrt.Execbuf.Ioctl

/-!
# What a call of the exec-buffer ioctl owes

Whatever a call acquires is to be released exactly once, by the call itself or by the
notification of the command that it queued; and a call that returns 0 has queued its command
or announced its completion. This is so except in four situations, which the main theorem
names.
-/
namespace Xrt.Execbuf

open Lib

/-- Once the queued command, if any, has been finished, every resource has been released as
often as it was acquired and never while it was not held; and success means that the command
is on its way or done. -/
structure Contract (w : World) (ret : Int) : Prop where
  settled : ∀ status, Settled (w.later status).log
  released : ∀ status r,
    (w.later status).log.count (.release r) = (w.later status).log.count (.acquire r)
  progress : ret = 0 → w.queued.isSome = true ∨ w.notified

/-- The call comes back and meets the contract. -/
def Fulfils (result : Except Fault (World × Int)) : Prop :=
  ∃ w ret, result = .ok (w, ret) ∧ Contract w ret

@[simp] theorem fulfils_ok (result : World × Int) :
    Fulfils (.ok result) ↔ Contract result.1 result.2 := by
  constructor
  · rintro ⟨w, ret, returned, contract⟩
    cases returned
    exact contract
  · intro contract
    exact ⟨result.1, result.2, rfl, contract⟩

@[simp] theorem not_fulfils_error (fault : Fault) : ¬ Fulfils (.error fault) := by
  rintro ⟨w, ret, returned, -⟩
  cases returned

/-! ## The ledger -/

section Ledger

variable {w : World} {held : List Resource}

def World.Holds (w : World) (held : List Resource) : Prop := replay [] w.log = some held

theorem World.Holds.acquire (holds : w.Holds held) (r : Resource) :
    (w.acquire r).Holds (r :: held) := by
  rw [World.Holds, World.acquire, replay_append, holds]
  rfl

theorem World.Holds.release {r : Resource} (holds : w.Holds held) (member : r ∈ held) :
    (w.release r).Holds (held.erase r) := by
  rw [World.Holds, World.release, replay_append, holds]
  simp [replay, member]

/-- What a command carries that its notification and `cb.free` release. -/
def KdsCommand.carries (xcmd : KdsCommand) : List Resource :=
  (if xcmd.inkernCb then [.inkernCb] else []) ++ [.command, .execbuf, .bo xcmd.gemObj]

theorem World.holds_congr {w' : World} (same : w'.log = w.log) (holds : w.Holds held) :
    w'.Holds held := by
  rw [World.Holds, same]
  exact holds

theorem announce_log (xcmd : KdsCommand) (status : KdsStatus) (w : World) :
    (xcmd.announce status w).log = w.log ++ [.release (.bo xcmd.gemObj), .release .execbuf] ++
      if xcmd.inkernCb then [.release .inkernCb] else [] := by
  cases inkern : xcmd.inkernCb <;> simp [KdsCommand.announce, World.release, inkern]

theorem announce_holds (xcmd : KdsCommand) (status : KdsStatus) (holds : w.Holds xcmd.carries) :
    (xcmd.announce status w).Holds [.command] ∧ (xcmd.announce status w).notified ∧
      (xcmd.announce status w).queued = w.queued := by
  refine ⟨?_, ?_, ?_⟩
  · rw [World.Holds, announce_log, replay_append, replay_append, holds]
    cases inkern : xcmd.inkernCb <;> simp [KdsCommand.carries, replay, inkern]
  · cases inkern : xcmd.inkernCb <;>
      simp [KdsCommand.announce, World.notified, World.release, inkern]
  · cases inkern : xcmd.inkernCb <;> simp [KdsCommand.announce, World.release, inkern]

theorem notify_holds (xcmd : KdsCommand) (status : KdsStatus) (holds : w.Holds xcmd.carries) :
    (xcmd.notify status w).Holds [.command] ∧ (xcmd.notify status w).notified ∧
      (xcmd.notify status w).queued = w.queued := by
  cases callback : xcmd.notifyHost with
  | execbuf =>
    simp only [KdsCommand.notify, callback, KdsCommand.notifyExecbuf]
    split
    · split
      · exact announce_holds xcmd status (World.holds_congr rfl holds)
      · exact announce_holds xcmd status holds
    · exact announce_holds xcmd status (World.holds_congr rfl holds)
  | execbufXgq =>
    simp only [KdsCommand.notify, callback, KdsCommand.notifyExecbufXgq]
    split
    · exact announce_holds xcmd status (World.holds_congr rfl holds)
    · exact announce_holds xcmd status (World.holds_congr rfl holds)

theorem finish_holds (xcmd : KdsCommand) (status : KdsStatus) (holds : w.Holds xcmd.carries) :
    (xcmd.finish status w).Holds [] ∧ (xcmd.finish status w).notified ∧
      (xcmd.finish status w).queued = w.queued := by
  obtain ⟨notified, announced, queued⟩ := notify_holds xcmd status holds
  exact ⟨notified.release (by simp), announced, queued⟩

end Ledger

/-! ## KDS -/

section Kds

variable {call : Call} {xcmd : KdsCommand} {w : World}

/-- What becomes of a command that is submitted: it is refused and nothing has happened, it
is left with a CU or the embedded scheduler, or it is finished at once. -/
inductive Submitted (xcmd : KdsCommand) (w : World) : World × Int → Prop where
  | refused {err : Int} : err ≠ 0 → Submitted xcmd w (w, err)
  | queued (cuIdx : Int) : Submitted xcmd w ({ w with queued := some { xcmd with cuIdx } }, 0)
  | finished (status status' : KdsStatus) :
      Submitted xcmd w ({ xcmd with status }.finish status' w, 0)

theorem kdsSubmitCu_submitted (call : Call) (xcmd : KdsCommand) (w : World) :
    Submitted xcmd w (call.kdsSubmitCu xcmd w) := by
  have refused : Submitted xcmd w (w, -EINVAL) := .refused (by decide)
  have dispatched : Submitted xcmd w (if call.acquired < 0 then (w, call.acquired)
      else ({ w with queued := some { xcmd with cuIdx := call.acquired } }, 0)) := by
    split
    next failed => exact .refused (Int.ne_of_lt failed)
    next => exact .queued call.acquired
  unfold Call.kdsSubmitCu
  split
  · exact dispatched
  · exact dispatched
  · exact .finished xcmd.status .completed
  · exact .finished xcmd.status .completed
  · exact .finished _ _
  all_goals exact refused

theorem kdsSubmitErt_submitted (call : Call) (xcmd : KdsCommand) (w : World) :
    Submitted xcmd w (call.kdsSubmitErt xcmd w) := by
  have refused : Submitted xcmd w (w, -EINVAL) := .refused (by decide)
  have queued : Submitted xcmd w ({ w with queued := some xcmd }, 0) := .queued xcmd.cuIdx
  unfold Call.kdsSubmitErt
  split
  · split
    next failed => exact .refused (Int.ne_of_lt failed)
    next => exact .queued call.acquired
  · split
    · exact .finished xcmd.status .completed
    · exact queued
  all_goals first
    | exact queued
    | exact refused

theorem kdsSubmit_submitted (call : Call) (xcmd : KdsCommand) (w : World) :
    Submitted xcmd w (call.kdsSubmit xcmd w) := by
  unfold Call.kdsSubmit
  split
  · exact kdsSubmitCu_submitted call xcmd w
  · exact kdsSubmitCu_submitted call xcmd w
  · exact kdsSubmitErt_submitted call xcmd w

theorem Contract.of_settled {ret : Int} (settled : ∀ status, Settled (w.later status).log)
    (progress : ret = 0 → w.queued.isSome = true ∨ w.notified) : Contract w ret :=
  ⟨settled, fun status r => (settled status).count_eq r, progress⟩

theorem contract_of_settled {ret : Int} (settled : w.Holds []) (unqueued : w.queued = none)
    (progress : ret = 0 → w.notified) : Contract w ret := by
  refine .of_settled ?_ ?_
  · intro status
    rw [World.later, unqueued]
    exact settled
  · intro success
    exact Or.inr (progress success)

theorem kdsAddCommand_contract (call : Call) (holds : w.Holds xcmd.carries)
    (unqueued : w.queued = none) :
    Contract (call.kdsAddCommand xcmd w).1 (call.kdsAddCommand xcmd w).2 := by
  have submitted := kdsSubmit_submitted call xcmd w
  rw [Call.kdsAddCommand]
  generalize call.kdsSubmit xcmd w = result at submitted ⊢
  cases submitted with
  | @refused err failed =>
    obtain ⟨settled, notified, same⟩ := finish_holds xcmd .error holds
    simp only [ne_eq, failed, not_false_eq_true, if_true]
    exact contract_of_settled settled (same.trans unqueued) fun _ => notified
  | queued cuIdx =>
    -- everything is released when the command is finished later
    have carried : World.Holds { w with queued := some { xcmd with cuIdx } } xcmd.carries := holds
    refine .of_settled ?_ ?_
    · intro status
      exact (finish_holds { xcmd with cuIdx } status carried).1
    · intro _
      exact Or.inl rfl
  | finished status status' =>
    obtain ⟨settled, notified, same⟩ := finish_holds { xcmd with status } status' holds
    exact contract_of_settled settled (same.trans unqueued) fun _ => notified

end Kds

/-! ## The exits -/

/-- The call holds its buffer object, the copy of the packet and the command. -/
structure Taken (call : Call) (w : World) : Prop where
  holds : w.Holds [.command, .execbuf, .bo call.handle]
  unqueued : w.queued = none

structure Fresh (call : Call) (xcmd : KdsCommand) : Prop where
  gemObj : xcmd.gemObj = call.handle
  inkernCb : xcmd.inkernCb = false

section Exits

variable {call : Call} {xcmd : KdsCommand} {w : World}

theorem Fresh.carries (fresh : Fresh call xcmd) :
    xcmd.carries = [.command, .execbuf, .bo call.handle] := by
  simp [KdsCommand.carries, fresh.gemObj, fresh.inkernCb]

theorem out_error {ret : Int} {copied : Bool}
    (holds : w.Holds ((if copied then [.execbuf] else []) ++ [.bo call.handle]))
    (unqueued : w.queued = none) (failed : ret < 0) :
    Contract (call.out ret copied w).1 (call.out ret copied w).2 := by
  have unsuccessful := Int.ne_of_lt failed
  simp only [Call.out, if_pos failed]
  cases copied with
  | false =>
    have put := holds.release (r := .bo call.handle) (by simp)
    exact contract_of_settled (by simpa using put) unqueued (absurd · unsuccessful)
  | true =>
    have copy := holds.release (r := .execbuf) (by simp)
    have put := copy.release (r := .bo call.handle) (by simp)
    exact contract_of_settled (by simpa using put) unqueued (absurd · unsuccessful)

theorem out1_error {ret : Int} (taken : Taken call w) (failed : ret < 0) :
    Contract (call.out1 ret w).1 (call.out1 ret w).2 := by
  have freed := taken.holds.release (r := .command) (by simp)
  exact out_error (by simpa using freed) taken.unqueued failed

/-- A command that has been completed on the spot only has to be freed. -/
theorem out1_notified (taken : Taken call w) (fresh : Fresh call xcmd) (status : KdsStatus) :
    Contract (call.out1 0 (xcmd.notify status w)).1 (call.out1 0 (xcmd.notify status w)).2 := by
  obtain ⟨holds, notified, same⟩ := notify_holds xcmd status (fresh.carries ▸ taken.holds)
  have freed := holds.release (r := .command) (by simp)
  exact contract_of_settled freed (same.trans taken.unqueued) fun _ => notified

/-- A command that is neither submitted nor completed is lost without an error. -/
theorem out1_dropped (taken : Taken call w) :
    ¬ Contract (call.out1 0 w).1 (call.out1 0 w).2 := by
  intro contract
  have kept : (w.release .command).Holds [.execbuf, .bo call.handle] :=
    taken.holds.release (r := .command) (by simp)
  have settled := contract.settled .completed
  rw [World.later, show (call.out1 0 w).1.queued = none from taken.unqueued] at settled
  cases kept.symm.trans settled

theorem out2_contract (taken : Taken call w) (fresh : Fresh call xcmd) :
    Contract (call.out2 xcmd w).1 (call.out2 xcmd w).2 := by
  unfold Call.out2
  split
  · split
    · exact out1_error taken (by decide)
    · have acquired := taken.holds.acquire .inkernCb
      refine kdsAddCommand_contract call ?_ taken.unqueued
      simpa [KdsCommand.carries, fresh.gemObj] using acquired
  · exact kdsAddCommand_contract call (fresh.carries ▸ taken.holds) taken.unqueued

end Exits

/-! ## Payloads and copies -/

section Payload

variable {call : Call} {xcmd : KdsCommand} {w : World} {pkt : ErtPacket}

theorem fillInfo_present (xcmd : KdsCommand) (bytes : Nat) (present : xcmd.info = true) :
    xcmd.fillInfo bytes = .ok xcmd := by
  simp [KdsCommand.fillInfo, present]

theorem fillInfo_missing (xcmd : KdsCommand) {bytes : Nat} (missing : xcmd.info = false)
    (some : bytes ≠ 0) : xcmd.fillInfo bytes = .error .nullPointer := by
  simp [KdsCommand.fillInfo, missing, some]

def startOpcodes : List ErtOpcode :=
  [.startCu, .skStart, .execWrite, .startKeyVal, .startFa, .startCopybo]

/-- Commands that start something have data: at least the CU mask. -/
theorem ertValidOpcode_count {opcode : ErtOpcode} (valid : pkt.ertValidOpcode = true)
    (known : pkt.opcode = some opcode) (starts : opcode ∈ startOpcodes) : pkt.count ≠ 0 := by
  rw [ErtPacket.ertValidOpcode, known] at valid
  simp only [startOpcodes, List.mem_cons, List.not_mem_nil, or_false] at starts
  rcases starts with rfl | rfl | rfl | rfl | rfl | rfl <;> simp at valid <;> omega

theorem getBoPaddr_answer (handle off size : Nat) (w : World) :
    (call.getBoPaddr handle off size w).2 = call.boPaddr handle off size := by
  unfold Call.getBoPaddr
  split <;> rfl

theorem getBoPaddr_taken (taken : Taken call w) (handle off size : Nat) :
    Taken call (call.getBoPaddr handle off size w).1 := by
  unfold Call.getBoPaddr
  split
  · exact taken
  · have balanced := (taken.holds.acquire (.bo handle)).release (r := .bo handle) (by simp)
    exact ⟨by simpa using balanced, taken.unqueued⟩

/-- The copy is between two local buffers and a copy CU can do it. -/
structure CopiesByCu (call : Call) (pkt : ErtPacket) : Prop where
  src : ∃ addr, call.boPaddr (pkt.word 10) (pkt.word64 9 8) (pkt.word 14) = .ok addr ∧
    (addr + pkt.word64 9 8) % kdmaBlockSize = 0
  dst : ∃ addr, call.boPaddr (pkt.word 13) (pkt.word64 12 11) (pkt.word 14) = .ok addr ∧
    (addr + pkt.word64 12 11) % kdmaBlockSize = 0
  size : pkt.word 14 % kdmaBlockSize = 0
  cdma : call.kds.numCdma ≠ 0

theorem boPaddr_error {handle off size : Nat} {err : Int}
    (failed : call.boPaddr handle off size = .error err) : err ≠ 0 := by
  unfold Call.boPaddr at failed
  split at failed
  · cases failed
    decide
  · split at failed
    · cases failed
      decide
    · split at failed
      · cases failed
        decide
      · cases failed

theorem failed_some {answer : Except Int Nat} {err : Int}
    (failed : Call.failed answer = some err) : answer = .error err := by
  cases answer with
  | ok addr => cases failed
  | error err' =>
    simp only [Call.failed] at failed
    split at failed
    · cases failed
    · cases failed
      rfl

theorem copyLocal_spec (pkt : ErtPacket) (present : xcmd.info = true) :
    ∃ xcmd' ret, call.copyLocal pkt xcmd
        (call.boPaddr (pkt.word 10) (pkt.word64 9 8) (pkt.word 14))
        (call.boPaddr (pkt.word 13) (pkt.word64 12 11) (pkt.word 14)) = .ok (xcmd', ret) ∧
      (Fresh call xcmd → Fresh call xcmd') ∧ (ret = 0 ↔ CopiesByCu call pkt) := by
  have invalid : -EINVAL ≠ 0 := by decide
  cases src : call.boPaddr (pkt.word 10) (pkt.word64 9 8) (pkt.word 14) with
  | error srcErr =>
    have notByCu : ¬ CopiesByCu call pkt := by
      rintro ⟨⟨addr, found, -⟩, -⟩
      cases src.symm.trans found
    cases dst : call.boPaddr (pkt.word 13) (pkt.word64 12 11) (pkt.word 14) with
    -- neither buffer is local
    | error dstErr => exact ⟨xcmd, -EINVAL, rfl, id, iff_of_false invalid notByCu⟩
    | ok dstAddr =>
      -- one buffer is imported: the copy is done on the spot
      refine ⟨xcmd, _, rfl, id, iff_of_false ?_ notByCu⟩
      split <;> omega
  | ok srcAddr =>
    cases dst : call.boPaddr (pkt.word 13) (pkt.word64 12 11) (pkt.word 14) with
    | error dstErr =>
      refine ⟨xcmd, _, rfl, id, iff_of_false ?_ ?_⟩
      · split <;> omega
      · rintro ⟨-, ⟨addr, found, -⟩, -⟩
        cases dst.symm.trans found
    | ok dstAddr =>
      simp only [Call.copyLocal]
      split
      next noCdma =>
        exact ⟨xcmd, -EINVAL, rfl, id, iff_of_false invalid fun byCu => byCu.cdma noCdma⟩
      next cdma =>
        split
        next unaligned =>
          refine ⟨xcmd, -EINVAL, rfl, id, iff_of_false invalid ?_⟩
          rintro ⟨⟨_, srcFound, srcAligned⟩, ⟨_, dstFound, dstAligned⟩, size, -⟩
          cases src.symm.trans srcFound
          cases dst.symm.trans dstFound
          rcases unaligned with dstBad | srcBad | sizeBad
          · exact dstBad dstAligned
          · exact srcBad srcAligned
          · exact sizeBad size
        next aligned =>
          simp only [not_or, not_not] at aligned
          obtain ⟨dstAligned, srcAligned, size⟩ := aligned
          refine ⟨{ xcmd with opcode := .start }, 0, ?_,
            fun fresh => ⟨fresh.gemObj, fresh.inkernCb⟩, ?_⟩
          · rw [KdsCommand.startKrnlEcmd2xcmd,
              fillInfo_present { xcmd with opcode := .start } _ present]
            rfl
          · refine iff_of_true rfl ⟨?_, ?_, size, cdma⟩
            · exact ⟨srcAddr, src, srcAligned⟩
            · exact ⟨dstAddr, dst, dstAligned⟩

theorem copyboEcmd2xcmd_spec (pkt : ErtPacket) (w : World) (present : xcmd.info = true) :
    ∃ w' xcmd' ret, call.copyboEcmd2xcmd pkt xcmd w = .ok (w', xcmd', ret) ∧
      (Taken call w → Taken call w') ∧ (Fresh call xcmd → Fresh call xcmd') ∧
      (ret = 0 ↔ CopiesByCu call pkt) := by
  have taken' := fun taken : Taken call w =>
    getBoPaddr_taken taken (pkt.word 10) (pkt.word64 9 8) (pkt.word 14)
  have taken'' := fun taken : Taken call w =>
    getBoPaddr_taken (taken' taken) (pkt.word 13) (pkt.word64 12 11) (pkt.word 14)
  simp only [Call.copyboEcmd2xcmd, getBoPaddr_answer]
  cases srcFailed : Call.failed (call.boPaddr (pkt.word 10) (pkt.word64 9 8) (pkt.word 14)) with
  | some err =>
    have answer := failed_some srcFailed
    refine ⟨_, xcmd, err, rfl, taken', id, iff_of_false (boPaddr_error answer) ?_⟩
    rintro ⟨⟨addr, found, -⟩, -⟩
    cases answer.symm.trans found
  | none =>
    cases dstFailed :
        Call.failed (call.boPaddr (pkt.word 13) (pkt.word64 12 11) (pkt.word 14)) with
    | some err =>
      have answer := failed_some dstFailed
      refine ⟨_, xcmd, err, rfl, taken'', id, iff_of_false (boPaddr_error answer) ?_⟩
      rintro ⟨-, ⟨addr, found, -⟩, -⟩
      cases answer.symm.trans found
    | none =>
      obtain ⟨xcmd', ret, copied, fresh', zero⟩ := copyLocal_spec pkt present
      refine ⟨_, xcmd', ret, ?_, taken'', fresh', zero⟩
      simp only [copied, bind, Except.bind]

end Payload

/-! ## The dispatch -/

section Dispatch

variable {call : Call} {xcmd : KdsCommand} {w : World} {pkt : ErtPacket}

/-- With XGQ: no copy that is left to a CU, and no command without data whose XGQ form is
built in the payload buffer. -/
structure XgqOk (call : Call) (pkt : ErtPacket) : Prop where
  copybo : pkt.opcode = some .startCopybo → ¬ CopiesByCu call pkt
  payload : pkt.opcode ∈ [some .clkCalib, some .mbValidate, some .accessTestC] → pkt.count ≠ 0

theorem convertXgq_fulfils (taken : Taken call w) (fresh : Fresh call xcmd) (payload : Nat) :
    Fulfils (Call.convertXgq xcmd payload w >>= fun filled => .ok (call.afterFill filled)) ↔
      xcmd.info = true := by
  cases info : xcmd.info with
  | true =>
    simp only [Call.convertXgq, fillInfo_present xcmd _ info, bind, Except.bind, fulfils_ok,
      iff_true]
    exact out2_contract taken fresh
  | false =>
    have hdr : sqHdrBytes + payload ≠ 0 := by simp [sqHdrBytes]
    simp [Call.convertXgq, fillInfo_missing xcmd info hdr, bind, Except.bind]

theorem xoclFillPayloadXgq_fulfils_iff (taken : Taken call w) (fresh : Fresh call xcmd)
    (valid : pkt.ertValidOpcode = true) (info : xcmd.info = true ↔ pkt.count ≠ 0) :
    Fulfils (call.xoclFillPayloadXgq pkt xcmd w >>= fun filled => .ok (call.afterFill filled)) ↔
      XgqOk call pkt := by
  have starts {opcode : ErtOpcode} (known : pkt.opcode = some opcode)
      (start : opcode ∈ startOpcodes) : xcmd.info = true :=
    info.mpr (ertValidOpcode_count valid known start)
  have completed : Fresh call { xcmd with status := .completed } := ⟨fresh.gemObj, fresh.inkernCb⟩
  have completes := (fulfils_ok _).mpr (out1_notified taken completed .completed)
  -- a conversion succeeds if there is a payload buffer
  have converts (type : KdsType) (opcode : KdsOpcode) (payload : Nat) :=
    have converted : Fresh call { xcmd with type, opcode } := ⟨fresh.gemObj, fresh.inkernCb⟩
    convertXgq_fulfils taken converted payload
  have started {opcode : ErtOpcode} (known : pkt.opcode = some opcode)
      (start : opcode ∈ startOpcodes) (other : opcode ≠ .startCopybo) :
      xcmd.info = true ↔ XgqOk call pkt := by
    refine iff_of_true (starts known start) ⟨fun copy => ?_, fun _ => info.mp (starts known start)⟩
    rw [known, Option.some_inj] at copy
    exact absurd copy other
  have needsData (known : pkt.opcode ∈ [some .clkCalib, some .mbValidate, some .accessTestC])
      (other : pkt.opcode ≠ some .startCopybo) : xcmd.info = true ↔ XgqOk call pkt :=
    info.trans ⟨fun data => ⟨(absurd · other), fun _ => data⟩, fun ok => ok.payload known⟩
  -- the cases come in the order of the opcodes in `xocl_fill_payload_xgq`
  rw [Call.xoclFillPayloadXgq]
  split
  next known => exact iff_of_true completes ⟨by simp [known], by simp [known]⟩
  next known => exact iff_of_true completes ⟨by simp [known], by simp [known]⟩
  next known => exact (converts ..).trans (started known (by decide) (by decide))
  next known => exact (converts ..).trans (started known (by decide) (by decide))
  next known => exact (converts ..).trans (needsData (by simp [known]) (by simp [known]))
  next known => exact (converts ..).trans (needsData (by simp [known]) (by simp [known]))
  next known => exact (converts ..).trans (needsData (by simp [known]) (by simp [known]))
  next known => exact (converts ..).trans (started known (by decide) (by decide))
  next known => exact (converts ..).trans (started known (by decide) (by decide))
  next known =>
    obtain ⟨w', xcmd', ret, copied, keeps, stays, zero⟩ :=
      copyboEcmd2xcmd_spec pkt w (starts known (by decide))
    have taken' := keeps taken
    have fresh' := stays fresh
    have ok : XgqOk call pkt ↔ ret ≠ 0 := by
      rw [Ne, zero]
      exact ⟨fun ok => ok.copybo known, fun other => ⟨fun _ => other, by simp [known]⟩⟩
    simp only [copied, bind, Except.bind, ok]
    rcases Int.lt_trichotomy ret 0 with negative | rfl | positive
    · rw [if_neg (by omega), fulfils_ok, Call.afterFill, if_neg (by omega)]
      exact iff_of_true (out1_error taken' negative) (Int.ne_of_lt negative)
    · -- the copy is left to a CU, but the command is freed instead of submitted
      rw [if_neg (by omega), fulfils_ok, Call.afterFill, if_neg (by omega)]
      exact iff_of_false (out1_dropped taken') (by simp)
    · have done : Fresh call { xcmd' with status := .completed } :=
        ⟨fresh'.gemObj, fresh'.inkernCb⟩
      rw [if_pos positive, fulfils_ok]
      exact iff_of_true (out1_notified taken' done .completed) (Int.ne_of_gt positive)
  next _ _ _ _ clkCalib accessTestC mbValidate _ _ startCopybo =>
    refine iff_of_true ?_ ⟨fun known => absurd known startCopybo, ?_⟩
    · have refused := out1_error taken (by decide : -EINVAL < 0)
      exact (fulfils_ok _).mpr refused
    · intro member
      simp only [List.mem_cons, List.not_mem_nil, or_false] at member
      rcases member with known | known | known
      · exact absurd known clkCalib
      · exact absurd known mbValidate
      · exact absurd known accessTestC

theorem dispatchXgq_fulfils_iff (taken : Taken call w) (fresh : Fresh call xcmd)
    (valid : pkt.ertValidOpcode = true) (info : xcmd.info = true ↔ pkt.count ≠ 0) :
    Fulfils (call.dispatchXgq pkt xcmd w) ↔ XgqOk call pkt :=
  have fresh' : Fresh call { xcmd with notifyHost := .execbufXgq } :=
    ⟨fresh.gemObj, fresh.inkernCb⟩
  xoclFillPayloadXgq_fulfils_iff taken fresh' valid info

/-- Without XGQ: no abort command without data, whose payload is the buffer to abort. -/
def LegacyOk (pkt : ErtPacket) : Prop := pkt.opcode = some .abort → pkt.count ≠ 0

theorem dispatchLegacy_fulfils_iff (taken : Taken call w) (fresh : Fresh call xcmd)
    (valid : pkt.ertValidOpcode = true) (info : xcmd.info = true ↔ pkt.count ≠ 0) :
    Fulfils (call.dispatchLegacy pkt xcmd w) ↔ LegacyOk pkt := by
  have starts {opcode : ErtOpcode} (known : pkt.opcode = some opcode)
      (start : opcode ∈ startOpcodes) : xcmd.info = true :=
    info.mpr (ertValidOpcode_count valid known start)
  rw [Call.dispatchLegacy]
  generalize legacy : { xcmd with
    notifyHost := NotifyHost.execbuf
    type := if call.kds.ertDisable then KdsType.cu else KdsType.ert } = xcmd'
  have fresh' : Fresh call xcmd' := by
    subst legacy
    exact ⟨fresh.gemObj, fresh.inkernCb⟩
  have info' : xcmd'.info = xcmd.info := by rw [← legacy]
  have completed : Fresh call { xcmd' with status := .completed } :=
    ⟨fresh'.gemObj, fresh'.inkernCb⟩
  have completes := (fulfils_ok _).mpr (out1_notified taken completed .completed)
  have refuses := (fulfils_ok _).mpr (out1_error taken (by decide : -EINVAL < 0))
  have submits (type : KdsType) (opcode : KdsOpcode) :=
    have submitted : Fresh call { xcmd' with type, opcode } := ⟨fresh'.gemObj, fresh'.inkernCb⟩
    (fulfils_ok _).mpr (out2_contract taken submitted)
  have filled (opcode : KdsOpcode) (bytes : Nat) (present : xcmd.info = true) :=
    fillInfo_present { xcmd' with opcode } bytes (info'.trans present)
  -- only the abort fills the payload of a command that may have none
  split
  next known => exact iff_of_true completes (by simp [LegacyOk, known])
  next known => exact iff_of_true completes (by simp [LegacyOk, known])
  next known =>
    rw [KdsCommand.startKrnlEcmd2xcmd, filled .start _ (starts known (by decide))]
    exact iff_of_true (submits xcmd'.type .start) (by simp [LegacyOk, known])
  next known =>
    rw [KdsCommand.startKrnlKvEcmd2xcmd, filled .start _ (starts known (by decide))]
    exact iff_of_true (submits xcmd'.type .start) (by simp [LegacyOk, known])
  next known =>
    rw [KdsCommand.startKrnlKvEcmd2xcmd, filled .start _ (starts known (by decide))]
    exact iff_of_true (submits xcmd'.type .start) (by simp [LegacyOk, known])
  next known =>
    rw [KdsCommand.startFaEcmd2xcmd, filled .start _ (starts known (by decide))]
    exact iff_of_true (submits .cu .start) (by simp [LegacyOk, known])
  next known =>
    obtain ⟨w', xcmd'', ret, copied, keeps, stays, -⟩ :=
      copyboEcmd2xcmd_spec pkt w (info'.trans (starts known (by decide)))
    have taken' := keeps taken
    have fresh'' := stays fresh'
    have done : Fresh call { xcmd'' with status := .completed } :=
      ⟨fresh''.gemObj, fresh''.inkernCb⟩
    refine iff_of_true ?_ (by simp [LegacyOk, known])
    simp only [copied, bind, Except.bind]
    split
    · exact (fulfils_ok _).mpr (out1_notified taken' done .completed)
    · split
      next negative => exact (fulfils_ok _).mpr (out1_error taken' negative)
      next => exact (fulfils_ok _).mpr (out2_contract taken' fresh'')
  next known =>
    refine iff_of_true ?_ (by simp [LegacyOk, known])
    split
    · exact refuses
    · rw [KdsCommand.startSkrnlEcmd2xcmd, filled .startSk _ (starts known (by decide))]
      exact submits xcmd'.type .startSk
  next known => exact iff_of_true (submits xcmd'.type .clkCalib) (by simp [LegacyOk, known])
  next known => exact iff_of_true (submits xcmd'.type .validate) (by simp [LegacyOk, known])
  next known => exact iff_of_true (submits xcmd'.type .validate) (by simp [LegacyOk, known])
  next known => exact iff_of_true (submits xcmd'.type .getStat) (by simp [LegacyOk, known])
  next known =>
    by_cases data : pkt.count = 0
    · -- `kds_alloc_command` has allocated no payload, and the handle is stored there
      have missing : xcmd'.info = false := by
        rw [info', Bool.eq_false_iff, Ne, info]
        exact not_not.mpr data
      have written : (4 : Nat) ≠ 0 := by decide
      rw [KdsCommand.abortEcmd2xcmd, fillInfo_missing { xcmd' with opcode := .abort } missing
        written]
      exact iff_of_false (not_fulfils_error _) fun ok => ok known data
    · rw [KdsCommand.abortEcmd2xcmd, filled .abort _ (info.mpr data)]
      exact iff_of_true (submits xcmd'.type .abort) fun _ => data
  next abort => exact iff_of_true refuses fun known => absurd known abort

end Dispatch

/-! ## The whole call -/

section Whole

variable {call : Call}

/-- The call gets as far as its buffer object. -/
structure Admitted (call : Call) (bo : Bo) : Prop where
  context : call.hasCtx = true ∨ call.hasHwCtx = true
  state : call.kds.badState = false
  found : call.lookup call.handle = some bo

structure Dispatches (call : Call) (bo : Bo) (pkt : ErtPacket) : Prop where
  page : pageSize ≤ bo.size
  execbuf : call.execbufOk = true
  valid : call.copyAndValidateExecbuf bo = some pkt
  command : (call.kdsAllocCommand (pkt.count * 4)).isSome = true

/-- The buffer object is an exec buffer, and the dispatch can deal with the packet. -/
def Sound (call : Call) : Prop :=
  ∀ bo, Admitted call bo → bo.execbuf = true ∧
    ∀ pkt, Dispatches call bo pkt →
      if call.kds.xgqEnable then XgqOk call pkt else LegacyOk pkt

theorem sound_iff {bo : Bo} (admitted : Admitted call bo) :
    Sound call ↔ bo.execbuf = true ∧ ∀ pkt, Dispatches call bo pkt →
      if call.kds.xgqEnable then XgqOk call pkt else LegacyOk pkt := by
  constructor
  · intro sound
    exact sound bo admitted
  · intro sound bo' admitted'
    cases admitted.found.symm.trans admitted'.found
    exact sound

theorem copyAndValidateExecbuf_spec {bo : Bo} {pkt : ErtPacket}
    (copied : call.copyAndValidateExecbuf bo = some pkt) :
    pkt.ertValidOpcode = true ∧ pkt.size ≤ bo.size ∧ pkt.sizeWithTimestampsOrZero ≤ bo.size := by
  simp only [Call.copyAndValidateExecbuf] at copied
  split at copied
  · cases copied
  next size =>
    split at copied
    · cases copied
    next valid =>
      split at copied
      · cases copied
      next stamps =>
        rw [Nat.not_lt] at size stamps
        rw [Bool.not_eq_true', Bool.not_eq_false] at valid
        split at copied
        · cases copied
          exact ⟨valid, size, stamps⟩
        · split at copied
          · cases copied
            exact ⟨valid, size, stamps⟩
          · split at copied
            · cases copied
            · cases copied
              exact ⟨valid, size, stamps⟩

theorem kdsAllocCommand_spec {size : Nat} {xcmd : KdsCommand}
    (allocated : call.kdsAllocCommand size = some xcmd) :
    Fresh call xcmd ∧ (xcmd.info = true ↔ size ≠ 0) := by
  unfold Call.kdsAllocCommand at allocated
  split at allocated
  · cases allocated
  · cases allocated
    exact ⟨⟨rfl, rfl⟩, by simp⟩

/-- A reference on something that is not an exec buffer is never given back. -/
theorem lookup_leaks (call : Call) : ¬ Contract (World.init.acquire (.bo call.handle)) 0 := by
  intro contract
  cases contract.settled .completed

theorem execute_fulfils_iff (call : Call) (bo : Bo) :
    Fulfils (call.execute bo) ↔ bo.execbuf = true ∧ ∀ pkt, Dispatches call bo pkt →
      if call.kds.xgqEnable then XgqOk call pkt else LegacyOk pkt := by
  unfold Call.execute
  split
  next other =>
    refine iff_of_false ?_ (by simp [(Bool.not_eq_true' _).mp other])
    rw [fulfils_ok]
    exact lookup_leaks call
  next execbuf =>
    -- each exit before the dispatch gives back what was acquired so far
    have isExecbuf : bo.execbuf = true := by simpa using execbuf
    simp only [isExecbuf, true_and]
    split
    next small =>
      refine iff_of_true ?_ fun pkt dispatches => absurd dispatches.page (by omega)
      exact (fulfils_ok _).mpr (out_error rfl rfl (by decide))
    next page =>
      split
      next noCopy =>
        refine iff_of_true ?_ fun pkt dispatches => by simp [dispatches.execbuf] at noCopy
        exact (fulfils_ok _).mpr (out_error rfl rfl (by decide))
      next copy =>
        split
        next invalid =>
          refine iff_of_true ?_ fun pkt dispatches => ?_
          · exact (fulfils_ok _).mpr (out_error rfl rfl (by decide))
          · cases invalid.symm.trans dispatches.valid
        next pkt valid =>
          split
          next noCommand =>
            refine iff_of_true ?_ fun pkt' dispatches => ?_
            · exact (fulfils_ok _).mpr (out_error rfl rfl (by decide))
            · cases valid.symm.trans dispatches.valid
              have allocated := dispatches.command
              rw [noCommand] at allocated
              cases allocated
          next xcmd allocated =>
            have dispatches : Dispatches call bo pkt :=
              ⟨Nat.not_lt.mp page, by simpa using copy, valid, by rw [allocated]; rfl⟩
            -- the packet is determined, so the condition on all packets is one on this packet
            have only : (∀ pkt', Dispatches call bo pkt' →
                if call.kds.xgqEnable then XgqOk call pkt' else LegacyOk pkt') ↔
                if call.kds.xgqEnable then XgqOk call pkt else LegacyOk pkt := by
              constructor
              · intro all
                exact all pkt dispatches
              · intro this pkt' dispatches'
                cases valid.symm.trans dispatches'.valid
                exact this
            obtain ⟨fresh, info⟩ := kdsAllocCommand_spec allocated
            have payload : xcmd.info = true ↔ pkt.count ≠ 0 := info.trans (by omega)
            have sound := (copyAndValidateExecbuf_spec valid).1
            rw [only]
            split
            · exact dispatchXgq_fulfils_iff ⟨rfl, rfl⟩ fresh sound payload
            · exact dispatchLegacy_fulfils_iff ⟨rfl, rfl⟩ fresh sound payload

/-- Exactly then does the call release everything once, later notification included, and
never return 0 for nothing: when its buffer object is an exec buffer and its packet is none
that the dispatch loses or fills through a null pointer. -/
theorem xoclCommandIoctl_fulfils_iff (call : Call) :
    Fulfils call.xoclCommandIoctl ↔ Sound call := by
  have refused {ret : Int} (failed : ret < 0) : Fulfils (.ok (World.init, ret)) :=
    (fulfils_ok _).mpr (contract_of_settled rfl rfl (absurd · (Int.ne_of_lt failed)))
  unfold Call.xoclCommandIoctl
  split
  next noContext =>
    refine iff_of_true (refused (by decide)) fun bo admitted => ?_
    rcases admitted.context with opened | opened <;> simp [opened] at noContext
  next context =>
    split
    next bad =>
      refine iff_of_true (refused (by decide)) fun bo admitted => ?_
      cases bad.symm.trans admitted.state
    next state =>
      split
      next missing =>
        refine iff_of_true (refused (by decide)) fun bo admitted => ?_
        cases missing.symm.trans admitted.found
      next bo found =>
        have admitted : Admitted call bo := ⟨by simpa [or_iff_not_imp_left] using context,
          by simpa using state, found⟩
        rw [sound_iff admitted]
        exact execute_fulfils_iff call bo

end Whole

def page (execbuf : Bool) (header : BitVec 32) (data : List (BitVec 32)) : Bo :=
  ⟨pageSize, execbuf, some 0, ⟨header, data⟩⟩

/-- A call for buffer object 1 in which every allocation succeeds; the objects 2 and 3 are
pages on the device. -/
def callFor (xgqEnable : Bool) (bo : Bo) : Call where
  kds := ⟨false, xgqEnable, false, some 0, 2, 1, 0, false, fun _ => rfl⟩
  hasCtx := true
  hasHwCtx := false
  lookup handle := if handle = 1 then some bo else some (page false 0 [])
  handle := 1
  inKernel := false
  cbFunc := false
  execbufOk := true
  commandOk := true
  infoOk := true
  inkernCbOk := true
  copyImport := 0
  acquired := 0
  aborted := []

/-- An `ERT_START_COPYBO` packet that copies 64 bytes from object 2 to object 3. -/
def copyPacket : List (BitVec 32) := [0, 0, 0, 0, 0, 0, 0, 0, 0, 0, 2, 0, 0, 3, 64, 0]

/-- The four ways to break the contract: a buffer object that is no exec buffer, a copy by a
CU with XGQ, a clock calibration without data with XGQ, and an abort without data. The first
two return 0 although nothing was queued or announced, and keep what they acquired. -/
theorem xoclCommandIoctl_contract_broken :
    (∃ w, (callFor false (page false 0 [])).xoclCommandIoctl = .ok (w, 0) ∧
      replay [] w.log = some [.bo 1] ∧ w.queued = none ∧ w.events = 0 ∧ w.callbacks = []) ∧
    (∃ w, (callFor true (page true 0x03810000 copyPacket)).xoclCommandIoctl = .ok (w, 0) ∧
      replay [] w.log = some [.execbuf, .bo 1] ∧ w.queued = none ∧ w.events = 0 ∧
        w.callbacks = []) ∧
    (callFor true (page true 0x06800000 [])).xoclCommandIoctl = .error .nullPointer ∧
    (callFor false (page true 0x02000000 [])).xoclCommandIoctl = .error .nullPointer := by
  refine ⟨⟨_, rfl, rfl, rfl, rfl, rfl⟩, ⟨_, rfl, rfl, rfl, rfl, rfl⟩, rfl, rfl⟩

end Xrt.Execbuf
