import Xrt.Lib.Run
import Xrt.Mailbox.Channel

/-!
# How a message is cut into packets

The transmitting worker sends one packet of the current message each time the hardware is
ready. `Fragments` describes the packets of a message without the sender: consecutive
pieces, the meta data in the first, the end mark in the last.
-/
namespace Xrt.Mailbox

open Lib

/-- Where the payload of the packet that carries the bytes from `n` on starts. -/
def payloadOff (n : Nat) : Nat := if n = 0 then msgStartPayload else msgBodyPayload

/-- The number of payload bytes in the packet that carries the bytes from `n` on. -/
def payloadCnt (len n : Nat) : Nat := min (len - n) (MailboxChannel.capacity (payloadOff n))

theorem capacity_payloadOff_pos (n : Nat) : 0 < MailboxChannel.capacity (payloadOff n) := by
  by_cases start : n = 0 <;> simp [payloadOff, start] <;> decide

theorem payloadOff_payloadCnt (len n : Nat) : payloadOff n + payloadCnt len n ≤ packetBytes := by
  by_cases start : n = 0 <;>
    simp [payloadOff, payloadCnt, start, MailboxChannel.capacity, msgStartPayload, msgBodyPayload,
      packetBytes] <;> omega

theorem payloadCnt_le (len n : Nat) : payloadCnt len n ≤ len - n := Nat.min_le_left _ _

variable {len : Nat}

theorem payloadCnt_within {n : Nat} (rest : n ≤ len) : n + payloadCnt len n ≤ len := by
  have bound := payloadCnt_le len n
  omega

theorem payloadCnt_pos {n : Nat} (rest : n < len) : 0 < payloadCnt len n := by
  have room := capacity_payloadOff_pos n
  rw [payloadCnt]
  omega

/-- What a message carries from one side to the other. -/
structure Content where
  reqId : BitVec 64
  flags : BitVec 32
  bytes : List Byte
  deriving DecidableEq, Repr

def MailboxMsg.content (msg : MailboxMsg) : Content where
  reqId := msg.reqId
  flags := msg.flags
  bytes := msg.data.take msg.len

theorem length_content (msg : MailboxMsg) : msg.content.bytes.length = msg.len := by
  simp [MailboxMsg.content, msg.fits]

/-- `pkt` carries the bytes of a message from `n` on, as many as fit. -/
structure Fragment (c : Content) (n : Nat) (pkt : MailboxPkt) : Prop where
  kind : pkt.kind = some (if n = 0 then .msgStart else .msgBody)
  valid : pkt.valid = true
  eom : pkt.eom = decide (n + payloadCnt c.bytes.length n = c.bytes.length)
  size : pkt.payloadSize = payloadCnt c.bytes.length n
  payload : slice pkt.bytes (payloadOff n) (payloadCnt c.bytes.length n) =
    slice c.bytes n (payloadCnt c.bytes.length n)
  first : n = 0 →
    pkt.msgReqId = c.reqId ∧ pkt.msgFlags = c.flags ∧ pkt.msgSize = c.bytes.length

/-- `pkts` are the packets that carry the bytes of a message from `n` to its end. -/
inductive Fragments (c : Content) : Nat → List MailboxPkt → Prop where
  | last {n : Nat} {pkt : MailboxPkt} : Fragment c n pkt →
      n + payloadCnt c.bytes.length n = c.bytes.length → Fragments c n [pkt]
  | more {n : Nat} {pkt : MailboxPkt} {pkts : List MailboxPkt} : Fragment c n pkt →
      n + payloadCnt c.bytes.length n < c.bytes.length →
      Fragments c (n + payloadCnt c.bytes.length n) pkts → Fragments c n (pkt :: pkts)

/-! ## One packet -/

section OnePacket

variable {ch : MailboxChannel} {msg : MailboxMsg} {n : Nat}

theorem typeWord_reads_back (isStart isEom : Bool) :
    PacketType.ofBits (MailboxChannel.typeWord isStart isEom &&& pktTypeMask) =
        some (if isStart then .msgStart else .msgBody) ∧
      (MailboxChannel.typeWord isStart isEom != PacketType.invalid.toBits) = true ∧
      (MailboxChannel.typeWord isStart isEom &&& pktTypeMsgEnd != 0) = isEom := by
  cases isStart <;> cases isEom <;> decide

theorem sizeT_rest (small : msg.len < 2 ^ 31) (rest : n ≤ msg.len) :
    sizeT ((msg.len : Int) - (n : Int)) = msg.len - n := by
  rw [sizeT_of_bounds] <;> omega

theorem payloadCnt_eom (len n : Nat) (rest : n ≤ len) :
    len - n ≤ MailboxChannel.capacity (payloadOff n) ↔ n + payloadCnt len n = len := by
  rw [payloadCnt]
  omega

theorem fragment_of_fields {pkt : MailboxPkt} (rest : n < msg.len)
    (type : pkt.type = MailboxChannel.typeWord (decide (n = 0))
      (decide (msg.len - n ≤ MailboxChannel.capacity (payloadOff n))))
    (size : pkt.payloadSize = payloadCnt msg.len n)
    (payload : slice pkt.bytes (payloadOff n) (payloadCnt msg.len n) =
      slice msg.data n (payloadCnt msg.len n))
    (first : n = 0 →
      pkt.msgReqId = msg.reqId ∧ pkt.msgFlags = msg.flags ∧ pkt.msgSize = msg.len) :
    Fragment msg.content n pkt := by
  obtain ⟨kind, valid, eom⟩ := typeWord_reads_back (decide (n = 0))
    (decide (msg.len - n ≤ MailboxChannel.capacity (payloadOff n)))
  rw [← type] at kind valid eom
  have within := payloadCnt_within rest.le
  constructor
  · rw [MailboxPkt.kind, kind]
    simp
  · exact valid
  · rw [MailboxPkt.eom, eom]
    simp only [length_content, payloadCnt_eom msg.len n rest.le]
  · rw [length_content, size]
  · rw [length_content, payload, MailboxMsg.content, slice_take within]
  · rw [length_content]
    exact first

/-- `chan_msg2pkt` makes the next fragment out of the packet buffer, whatever it held. -/
theorem chanMsg2Pkt_fragment (small : msg.len < 2 ^ 31) (position : ch.bytesDone = n)
    (rest : n < msg.len) :
    ∃ pkt, ch.chanMsg2Pkt msg = .ok pkt ∧ Fragment msg.content n pkt := by
  have fits := msg.fits
  have positive := payloadCnt_pos rest
  have bounded := payloadCnt_le msg.len n
  have cntSmall : payloadCnt msg.len n < 2 ^ 32 := by omega
  have sizeSmall : msg.len < 2 ^ 32 := by omega
  have length : (slice msg.data n (payloadCnt msg.len n)).length = payloadCnt msg.len n :=
    length_slice (by omega)
  have inside : payloadOff n + (slice msg.data n (payloadCnt msg.len n)).length ≤ packetBytes := by
    rw [length]
    exact payloadOff_payloadCnt msg.len n
  have offEq : (if n = 0 then msgStartPayload else msgBodyPayload) = payloadOff n := rfl
  have cntEq : (if msg.len - n ≤ MailboxChannel.capacity (payloadOff n) then msg.len - n
      else MailboxChannel.capacity (payloadOff n)) = payloadCnt msg.len n := Nat.min_def.symm
  simp only [MailboxChannel.chanMsg2Pkt, position, Int.natCast_eq_zero, Int.toNat_natCast,
    decide_eq_true_eq, offEq, sizeT_rest small rest.le, cntEq, Nat.ne_of_gt positive, if_false]
  rw [if_neg (by omega), dif_pos inside]
  refine ⟨_, rfl, ?_⟩
  by_cases start : n = 0
  · subst start
    rw [if_pos rfl, Nat.mod_eq_of_lt sizeSmall]
    obtain ⟨type, size, first⟩ :=
      start_fields ch.packet (MailboxChannel.typeWord (decide (0 = 0))
        (decide (msg.len - 0 ≤ MailboxChannel.capacity (payloadOff 0))))
        msg.reqId msg.flags cntSmall sizeSmall inside
    exact fragment_of_fields rest type size (slice_store_self _ inside length) fun _ => first
  · rw [if_neg start]
    have behind : msgBodyPayload ≤ payloadOff n := by rw [payloadOff, if_neg start]
    obtain ⟨type, size⟩ := header_fields ch.packet _ cntSmall behind inside
    exact fragment_of_fields rest type size (slice_store_self _ inside length)
      fun first => absurd first start

end OnePacket

/-! ## The whole message -/

/-- The transmitting worker together with what it has finished and written so far. -/
structure TxTrace where
  ch : MailboxChannel
  tstPkt : MailboxPkt
  done : List MailboxMsg
  frames : List Frame
  deriving DecidableEq, Repr

/-- One pass of the transmitting worker of a mailbox with registers. -/
def txStep (s : TxTrace) (regs : TxRegs) : Option TxTrace :=
  match s.ch.chanDoTx s.tstPkt (some regs) true with
  | .error _ => none
  | .ok sent => some ⟨sent.ch, sent.tstPkt, s.done ++ sent.done, s.frames ++ sent.frame.toList⟩

def TxRegs.ready (regs : TxRegs) : Bool :=
  regs.status != BitVec.allOnes 32 && regs.status &&& statusSta != 0

/-- The number of packets that carry the bytes from `n` on. -/
def packetsLeft (len n : Nat) : Nat :=
  if n = 0 then 1 + (len - 40 + 55) / 56 else (len - n + 55) / 56

theorem packetsLeft_done (len : Nat) (nonempty : 0 < len) : packetsLeft len len = 0 := by
  rw [packetsLeft, if_neg (by omega)]
  omega

theorem packetsLeft_next {n : Nat} (rest : n < len) :
    packetsLeft len n = packetsLeft len (n + payloadCnt len n) + 1 := by
  have room : MailboxChannel.capacity (payloadOff n) = if n = 0 then 40 else 56 := by
    rw [payloadOff]
    split <;> rfl
  simp only [packetsLeft, payloadCnt, room]
  split <;> split <;> omega

theorem isTxChanReady_hw {ch : MailboxChannel} (swIdle : ch.swChanMsgId = 0) (regs : TxRegs) :
    ch.isTxChanReady (some regs) = regs.ready := by
  simp [MailboxChannel.isTxChanReady, TxRegs.ready, swIdle]

theorem nextTxMsg_swChanMsgId (ch : MailboxChannel) :
    ch.nextTxMsg.1.swChanMsgId = ch.swChanMsgId := by
  have done (err : Int) : (ch.chanMsgDone err).1.swChanMsgId = ch.swChanMsgId := by
    rw [MailboxChannel.chanMsgDone]
    split <;> rfl
  simp only [MailboxChannel.nextTxMsg]
  split
  · split <;> split <;> simp [MailboxChannel.dequeueTxMsg, MailboxChannel.chanMsgDequeue, done]
  · split <;> rfl

theorem txStep_unready {s : TxTrace} {regs : TxRegs} (swIdle : s.ch.swChanMsgId = 0)
    (unready : regs.ready = false) :
    txStep s regs = some ⟨s.ch.nextTxMsg.1, s.tstPkt, s.done ++ s.ch.nextTxMsg.2, s.frames⟩ := by
  simp [txStep, MailboxChannel.chanDoTx, isTxChanReady_hw swIdle, unready]

/-- The worker is sending `msg` through the hardware and has sent `n` of its bytes. -/
structure Sending (msg : MailboxMsg) (n : Nat) (ch : MailboxChannel) : Prop where
  current : ch.curMsg = some msg
  position : ch.bytesDone = n
  swIdle : ch.swChanMsgId = 0

section Sender

variable {msg : MailboxMsg} {n : Nat} {s : TxTrace} {regs : TxRegs}

theorem nextTxMsg_sending {ch : MailboxChannel} (small : msg.len < 2 ^ 31)
    (sending : Sending msg n ch) (rest : n < msg.len) : ch.nextTxMsg = (ch, []) := by
  have unsent : ¬ msg.len = sizeT (n : Int) := by
    rw [sizeT_of_bounds] <;> omega
  simp [MailboxChannel.nextTxMsg, sending.current, sending.position, unsent]

theorem txStep_ready (small : msg.len < 2 ^ 31) (hw : msg.chanSw = false)
    (sending : Sending msg n s.ch) (rest : n < msg.len) (ready : regs.ready = true)
    (notFull : regs.error &&& statusFull = 0) :
    ∃ ch frame, txStep s regs = some ⟨ch, s.tstPkt, s.done, s.frames ++ [frame]⟩ ∧
      Fragment msg.content n frame.toPkt ∧ Sending msg (n + payloadCnt msg.len n) ch := by
  obtain ⟨pkt, made, fragment⟩ := chanMsg2Pkt_fragment small sending.position rest
  have size : pkt.payloadSize = payloadCnt msg.len n := by
    rw [fragment.size, length_content]
  have within := payloadCnt_within rest.le
  have advance : toInt32 ((n : Int) + (payloadCnt msg.len n : Int)) =
      (n + payloadCnt msg.len n : Nat) := by
    rw [toInt32_of_bounds] <;> omega
  have stepped : s.ch.chanDoTx s.tstPkt (some regs) true =
      .ok ⟨{ s.ch with packet := pkt, bytesDone := (n + payloadCnt msg.len n : Nat) }.resetPkt,
        s.tstPkt, [], some pkt.toFrame, true⟩ := by
    simp [MailboxChannel.chanDoTx, isTxChanReady_hw sending.swIdle, ready,
      nextTxMsg_sending small sending rest, sending.current, hw, MailboxChannel.doHwTx, made,
      MailboxChannel.chanSendPkt, fragment.valid, notFull, sending.position, size, advance, bind,
      Except.bind]
  refine ⟨{ s.ch with packet := pkt, bytesDone := (n + payloadCnt msg.len n : Nat) }.resetPkt,
    pkt.toFrame, ?_, ?_, ?_⟩
  · rw [txStep, stepped]
    simp
  · rw [Frame.toPkt_toFrame]
    exact fragment
  · constructor
    · exact sending.current
    · rfl
    · exact sending.swIdle

variable {schedule : List TxRegs}

/-- While the hardware is not ready the worker writes nothing, whatever it is doing. -/
theorem run_unready (swIdle : s.ch.swChanMsgId = 0) (unready : schedule.countP TxRegs.ready = 0) :
    ∃ t, run txStep s schedule = some t ∧ t.frames = s.frames := by
  induction schedule generalizing s with
  | nil => exact ⟨s, rfl, rfl⟩
  | cons regs schedule ih =>
    rw [List.countP_eq_zero] at unready
    have first : regs.ready = false := by simpa using unready regs List.mem_cons_self
    have idle := (nextTxMsg_swChanMsgId s.ch).trans swIdle
    obtain ⟨t, ran, frames⟩ :=
      ih (s := ⟨s.ch.nextTxMsg.1, s.tstPkt, s.done ++ s.ch.nextTxMsg.2, s.frames⟩) idle
        (List.countP_eq_zero.mpr fun regs member => unready regs (List.mem_cons_of_mem _ member))
    refine ⟨t, ?_, frames⟩
    rw [run_cons, txStep_unready swIdle first]
    exact ran

theorem run_sending (small : msg.len < 2 ^ 31) (hw : msg.chanSw = false)
    (sending : Sending msg n s.ch) (rest : n < msg.len)
    (enough : schedule.countP TxRegs.ready = packetsLeft msg.len n)
    (notFull : ∀ regs ∈ schedule, regs.error &&& statusFull = 0) :
    ∃ t frames, run txStep s schedule = some t ∧ t.frames = s.frames ++ frames ∧
      Fragments msg.content n (frames.map Frame.toPkt) := by
  induction schedule generalizing s n with
  | nil =>
    rw [packetsLeft_next rest] at enough
    cases enough
  | cons regs schedule ih =>
    have notFull' : ∀ regs ∈ schedule, regs.error &&& statusFull = 0 :=
      fun regs member => notFull regs (List.mem_cons_of_mem _ member)
    cases ready : regs.ready with
    | false =>
      -- nothing happens in this pass
      rw [List.countP_cons_of_neg (by simp [ready])] at enough
      have stays := txStep_unready sending.swIdle ready
      simp only [nextTxMsg_sending small sending rest, List.append_nil] at stays
      obtain ⟨t, frames, ran, written, fragments⟩ := ih sending rest enough notFull'
      refine ⟨t, frames, ?_, written, fragments⟩
      rw [run_cons, stays]
      exact ran
    | true =>
      rw [List.countP_cons_of_pos ready, packetsLeft_next rest, Nat.add_right_cancel_iff] at enough
      obtain ⟨ch, frame, stepped, fragment, sending'⟩ :=
        txStep_ready small hw sending rest ready (notFull regs List.mem_cons_self)
      rcases Nat.eq_or_lt_of_le (payloadCnt_within rest.le) with last | more
      · -- the rest of the schedule belongs to the messages behind this one
        rw [last, packetsLeft_done msg.len (by omega)] at enough
        obtain ⟨t, ran, same⟩ := run_unready (s := ⟨ch, s.tstPkt, s.done, s.frames ++ [frame]⟩)
          sending'.swIdle enough
        refine ⟨t, [frame], ?_, same, ?_⟩
        · rw [run_cons, stepped]
          exact ran
        · exact .last fragment (by rw [length_content]; exact last)
      · obtain ⟨t, frames, ran, written, fragments⟩ :=
          ih (s := ⟨ch, s.tstPkt, s.done, s.frames ++ [frame]⟩) sending' more enough notFull'
        refine ⟨t, frame :: frames, ?_, by simpa using written, ?_⟩
        · rw [run_cons, stepped]
          exact ran
        · refine .more fragment ?_ ?_
          · rw [length_content]
            exact more
          · rw [length_content]
            exact fragments

/-- A message that waits in line is sent as if it were the current one already: the first
pass takes it. -/
theorem run_queued {later : List MailboxMsg} (small : msg.len < 2 ^ 31)
    (hw : msg.chanSw = false) (nonempty : 0 < msg.len) (queued : s.ch.msgs = msg :: later)
    (idle : s.ch.curMsg = none) (position : s.ch.bytesDone = 0) (swIdle : s.ch.swChanMsgId = 0)
    (enough : schedule.countP TxRegs.ready = packetsLeft msg.len 0)
    (notFull : ∀ regs ∈ schedule, regs.error &&& statusFull = 0) :
    ∃ t frames, run txStep s schedule = some t ∧ t.frames = s.frames ++ frames ∧
      Fragments msg.content 0 (frames.map Frame.toPkt) := by
  let taken := msgTimerOn false msg msg.timeoutInSec
  let ch := { s.ch with msgs := later, curMsg := some taken }
  have sending : Sending taken 0 ch := ⟨rfl, position, swIdle⟩
  have small' : taken.len < 2 ^ 31 := small
  have takes : s.ch.nextTxMsg = (ch, []) := by
    simp [MailboxChannel.nextTxMsg, idle, MailboxChannel.dequeueTxMsg,
      MailboxChannel.chanMsgDequeue, MailboxChannel.wanted, queued, ch, taken]
  have same (regs : TxRegs) : txStep s regs = txStep { s with ch := ch } regs := by
    have ready : s.ch.isTxChanReady (some regs) = ch.isTxChanReady (some regs) := rfl
    simp only [txStep, MailboxChannel.chanDoTx, takes, ready,
      nextTxMsg_sending small' sending nonempty]
  have result := run_sending (s := { s with ch := ch }) small' hw sending nonempty enough notFull
  cases schedule with
  | nil =>
    rw [packetsLeft_next nonempty] at enough
    cases enough
  | cons regs schedule =>
    rw [run_cons, same regs, ← run_cons]
    exact result

end Sender

/-! ## The shape of the packets -/

/-- Only the first packet of a message is a start packet, and only the last one carries the
end mark. -/
theorem Fragments.shape {c : Content} {n : Nat} {pkts : List MailboxPkt}
    (fragments : Fragments c n pkts) {i : Nat} {pkt : MailboxPkt} (found : pkts[i]? = some pkt) :
    pkt.kind = some (if n = 0 ∧ i = 0 then .msgStart else .msgBody) ∧
      pkt.eom = decide (i + 1 = pkts.length) := by
  induction fragments generalizing i with
  | last fragment whole =>
    cases i with
    | zero =>
      cases found
      simp [fragment.kind, fragment.eom, whole]
    | succ i => simp at found
  | @more n first pkts fragment short rest ih =>
    have nonempty : 0 < pkts.length := by cases rest <;> simp
    cases i with
    | zero =>
      cases found
      simp [fragment.kind, fragment.eom, Nat.ne_of_lt short, Nat.ne_of_gt nonempty]
    | succ i =>
      obtain ⟨kind, eom⟩ := ih found
      have advanced : n + payloadCnt c.bytes.length n ≠ 0 := by
        have positive : 0 < payloadCnt c.bytes.length n := payloadCnt_pos (by omega)
        omega
      rw [kind, eom, if_neg fun start => advanced start.1, if_neg fun start => by omega]
      simp

end Xrt.Mailbox
