import Xrt.Mailbox.Reassembly

/-!
# A response over the software channel and over the hardware

A response reaches the message that waits for it either at once, through the buffer of the
software channel, or packet by packet. Both put the same bytes into the buffer of the
requester, and neither reports an error. But only the hardware path sets the length of the
message to that of the response, so that the two agree on the length exactly for responses
that fill the buffer.
-/
namespace Xrt.Mailbox

open Lib

/-- What `mailbox_request` hands to its caller: the return value, the length that it writes
to `*resplen` and the content of the response buffer. -/
structure Answer where
  rv : Int
  resplen : Nat
  resp : List Byte
  deriving DecidableEq, Repr

/-- The end of `mailbox_request`, when `respmsg` has been completed; `*resplen` was the size
of the buffer before. -/
def answer (resplen : Nat) (respmsg : MailboxMsg) : Answer where
  rv := respmsg.error
  resplen := if respmsg.error = 0 then respmsg.len else resplen
  resp := respmsg.data

/-- The answer to the requester of `respmsg` among the messages that have been finished. -/
def answerFrom (respmsg : MailboxMsg) (done : List MailboxMsg) : Option Answer :=
  (done.find? fun msg => msg.ptr = respmsg.ptr).map (answer respmsg.len)

/-- The daemon writes the response to the software channel and the receiving worker takes it
from there. -/
def answerSw (ch : MailboxChannel) (respmsg : MailboxMsg) (response : Content) : Option Answer :=
  let (ch, _) := ch.mailboxWrite response.reqId (response.flags.setWidth 64) response.bytes true
  match ch.doSwRx none with
  | .error _ => none
  | .ok (_, done, _) => answerFrom respmsg done

def answerHw (ch : MailboxChannel) (tstPkt : MailboxPkt) (respmsg : MailboxMsg)
    (polls : List RxPoll) : Option Answer :=
  match run rxStep ⟨ch, tstPkt, []⟩ polls with
  | none => none
  | some received => answerFrom respmsg received.done

section Response

variable {ch : MailboxChannel} {respmsg : MailboxMsg} {response : Content}

/-- `mailbox_write` refuses an empty message, so the worker finds nothing. -/
theorem answerSw_empty (free : ch.swChanMsgId = 0) (empty : response.bytes = []) :
    answerSw ch respmsg response = none := by
  simp [answerSw, MailboxChannel.mailboxWrite, MailboxChannel.doSwRx, free, empty, answerFrom]

theorem doSwRx_response (alloc : Option Nat) (idle : ch.curMsg = none)
    (pending : ch.swChanMsgId ≠ 0)
    (isResponse : ch.swChanMsgFlags.setWidth 32 &&& xclMbReqFlagResponse ≠ 0)
    (found : ch.msgs.find? (MailboxChannel.wanted ch.swChanMsgId) = some respmsg)
    (room : ch.swChanBuf.length ≤ respmsg.len) :
    ∃ ch' m, ch.doSwRx alloc = .ok (ch', [m], true) ∧ m.ptr = respmsg.ptr ∧ m.error = 0 ∧
      m.len = respmsg.len ∧ m.data = patch respmsg.data 0 ch.swChanBuf := by
  have inside : 0 + ch.swChanBuf.length ≤ respmsg.data.length := by
    rw [Nat.zero_add]
    exact room.trans respmsg.fits
  have prepared := dequeueRxMsg_response alloc idle isResponse found room
  refine ⟨{ ch with
      msgs := ch.msgs.eraseP (MailboxChannel.wanted ch.swChanMsgId)
      curMsg := none
      bytesDone := 0 }.cleanupSwCh,
    { { respmsg with chanSw := true }.write 0 ch.swChanBuf inside with error := 0 }, ?_, rfl, rfl,
    rfl, rfl⟩
  rw [MailboxChannel.doSwRx, if_neg (by simp [idle]), if_neg pending, prepared]
  simp only [dif_pos inside]
  rfl

theorem answerSw_response (idle : ch.curMsg = none) (free : ch.swChanMsgId = 0)
    (named : response.reqId ≠ 0) (nonempty : response.bytes ≠ [])
    (isResponse : response.flags &&& xclMbReqFlagResponse ≠ 0)
    (found : ch.msgs.find? (MailboxChannel.wanted response.reqId) = some respmsg)
    (room : response.bytes.length ≤ respmsg.len) :
    answerSw ch respmsg response =
      some ⟨0, respmsg.len, patch respmsg.data 0 response.bytes⟩ := by
  let written := { ch with
    swChanBuf := response.bytes
    swChanMsgId := response.reqId
    swChanMsgFlags := response.flags.setWidth 64 }
  have accepted : ch.mailboxWrite response.reqId (response.flags.setWidth 64) response.bytes true =
      (written, 0) := by
    rw [MailboxChannel.mailboxWrite, if_neg (not_not.mpr free),
      if_neg (not_or.mpr ⟨named, nonempty⟩)]
    rfl
  -- the daemon passes the flags on as 64 bits, of which the worker keeps 32
  have flags : (response.flags.setWidth 64).setWidth 32 = response.flags := by simp
  have idle' : written.curMsg = none := idle
  have isResponse' : written.swChanMsgFlags.setWidth 32 &&& xclMbReqFlagResponse ≠ 0 := by
    rw [flags]
    exact isResponse
  obtain ⟨ch', m, received, ptr, error, len, data⟩ :=
    doSwRx_response none idle' named isResponse' found room
  simp [answerSw, accepted, received, answerFrom, answer, ptr, error, len, data, written]

theorem answerHw_response (tstPkt : MailboxPkt) {polls : List RxPoll} (idle : Idle ch)
    (small : response.bytes.length < 2 ^ 31)
    (fragments : Fragments response 0 (polls.map fun poll => poll.frame.toPkt))
    (delivers : ∀ poll ∈ polls, poll.delivers)
    (isResponse : response.flags &&& xclMbReqFlagResponse ≠ 0)
    (found : ch.msgs.find? (MailboxChannel.wanted response.reqId) = some respmsg)
    (room : response.bytes.length ≤ respmsg.len) :
    answerHw ch tstPkt respmsg polls =
      some ⟨0, response.bytes.length, patch respmsg.data 0 response.bytes⟩ := by
  obtain ⟨received, m, ran, -, -, done, holds⟩ :=
    run_response (s := ⟨ch, tstPkt, []⟩) small idle fragments delivers isResponse found room
  have finished : received.done = [{ m with error := 0 }] := done
  have data : m.data = patch respmsg.data 0 response.bytes := by
    rw [holds.data, List.take_length]
  simp [answerHw, ran, finished, answerFrom, answer, holds.ptr, holds.len, data]

/-- The two transports give the requester the same answer exactly if the response fills the
buffer. A shorter one has the same bytes and error code, but over the software channel its
length is reported as that of the buffer; an empty one only gets through in packets. -/
theorem transports_agree_iff {tstPkt : MailboxPkt} {polls : List RxPoll} (idle : Idle ch)
    (free : ch.swChanMsgId = 0) (named : response.reqId ≠ 0)
    (isResponse : response.flags &&& xclMbReqFlagResponse ≠ 0)
    (found : ch.msgs.find? (MailboxChannel.wanted response.reqId) = some respmsg)
    (room : response.bytes.length ≤ respmsg.len) (small : response.bytes.length < 2 ^ 31)
    (fragments : Fragments response 0 (polls.map fun poll => poll.frame.toPkt))
    (delivers : ∀ poll ∈ polls, poll.delivers) :
    answerSw ch respmsg response = answerHw ch tstPkt respmsg polls ↔
      response.bytes ≠ [] ∧ response.bytes.length = respmsg.len := by
  have hw := answerHw_response tstPkt idle small fragments delivers isResponse found room
  -- an empty response is one packet for the hardware and an error for the daemon
  by_cases empty : response.bytes = []
  · rw [answerSw_empty free empty, hw]
    simp [empty]
  · have sw := answerSw_response idle.current free named empty isResponse found room
    rw [sw, hw, Option.some_inj, Answer.mk.injEq]
    constructor
    · rintro ⟨-, len, -⟩
      exact ⟨empty, len.symm⟩
    · rintro ⟨-, len⟩
      exact ⟨rfl, len.symm, rfl⟩

end Response

/-- The message that waits in `waitingRx`. -/
def waitingMsg (size : Nat) : MailboxMsg := { allocMsg 2 (List.replicate size 0) with reqId := 5 }

/-- A response of 50 bytes, cut into two packets by the sender, for a buffer of 50 bytes. -/
theorem transports_agree_full :
    ∃ sent, run txStep (queuedTx 1 50) [readyRegs, readyRegs] = some sent ∧
      answerSw (waitingRx 50).ch (waitingMsg 50) ⟨5, 1, List.replicate 50 7⟩ =
        answerHw (waitingRx 50).ch zeroPkt (waitingMsg 50)
          (sent.frames.map (deliver none)) := by
  have enough : [readyRegs, readyRegs].countP TxRegs.ready = packetsLeft 50 0 := by decide
  obtain ⟨sent, frames, ran, written, fragments⟩ :=
    run_queued (s := queuedTx 1 50) (by decide) (by rfl) (by decide) rfl rfl rfl rfl enough
      (by decide)
  have polls : (sent.frames.map (deliver none)).map (fun poll => poll.frame.toPkt) =
      frames.map Frame.toPkt := by
    rw [written, List.map_map]
    rfl
  have content : MailboxMsg.content
      { allocMsg 1 (List.replicate 50 7) with reqId := 5, flags := 1 } =
        ⟨5, 1, List.replicate 50 7⟩ := by rfl
  have idle : Idle (waitingRx 50).ch := ⟨rfl, rfl, by decide⟩
  refine ⟨sent, ran, (transports_agree_iff idle rfl (by decide) (by decide) rfl (by decide)
    (by decide) ?_ ?_).mpr (by decide)⟩
  · rw [polls, ← content]
    exact fragments
  · simp [deliver_delivers]

/-- Three bytes for a buffer of four: over the software channel four bytes are reported. -/
theorem transports_disagree_short :
    ∃ sent, run txStep (queuedTx 1 3) [readyRegs] = some sent ∧
      answerSw (waitingRx 4).ch (waitingMsg 4) ⟨5, 1, [7, 7, 7]⟩ = some ⟨0, 4, [7, 7, 7, 0]⟩ ∧
      answerHw (waitingRx 4).ch zeroPkt (waitingMsg 4) (sent.frames.map (deliver none)) =
        some ⟨0, 3, [7, 7, 7, 0]⟩ := by
  refine ⟨_, rfl, ?_, ?_⟩
  · decide
  · decide

end Xrt.Mailbox
