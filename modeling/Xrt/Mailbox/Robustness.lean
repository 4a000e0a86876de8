import Xrt.Lib.Run
import Xrt.Mailbox.Channel

/-!
# What the peer can do to the receiver

The peer is not trusted: any 64 bytes may arrive as a packet. No `BUG_ON` is in its reach.
The size of the payload, however, is only compared with what the message still takes, not
with what a packet holds: a packet that announces more makes the receiver read on behind the
packet. Besides, the position in the message is an `int`, which turns negative in a message
of 2 GiB or more.
-/
namespace Xrt.Mailbox

open Lib

/-! ## The receiver as a system -/

structure RxState where
  ch : MailboxChannel
  tstPkt : MailboxPkt
  deriving DecidableEq, Repr

/-- What happens to the receiving channel: a pass of its worker, a message from the daemon,
requesters that queue and withdraw the messages for their responses, a tick of the timer. -/
inductive RxEvent where
  | receive (swAlloc : Option Nat) (poll : Option RxPoll)
  | write (id flags : BitVec 64) (payload : List Byte) (vmallocOk : Bool)
  | enqueue (msg : MailboxMsg)
  | dequeue (reqId : BitVec 64)
  | tick
  deriving DecidableEq, Repr

/-- The channel after an event; there is none after a fault. -/
def rxEvent (s : RxState) : RxEvent → Option RxState
  | .receive swAlloc poll =>
    match s.ch.chanDoRx s.tstPkt swAlloc poll with
    | .ok received => some ⟨received.ch, received.tstPkt⟩
    | .error _ => none
  | .write id flags payload vmallocOk =>
    some ⟨(s.ch.mailboxWrite id flags payload vmallocOk).1, s.tstPkt⟩
  | .enqueue msg => some ⟨(s.ch.chanMsgEnqueue msg).1, s.tstPkt⟩
  | .dequeue reqId => some ⟨(s.ch.chanMsgDequeue reqId).1, s.tstPkt⟩
  | .tick => some ⟨s.ch.timeoutMsg.1, s.tstPkt⟩

/-- The channel at the start. -/
def rxInit : RxState := ⟨MailboxChannel.init, zeroPkt⟩

/-- `chan_pkt2msg` either refuses the payload, or the payload lies inside the packet and is
copied to a place at or behind the start of the buffer. -/
def CopyFits (ch : MailboxChannel) (len off : Nat) : Prop :=
  sizeT (len - ch.bytesDone) < ch.packet.payloadSize ∨
    ch.packet.payloadSize ≤ MailboxChannel.capacity off ∧
      (ch.packet.payloadSize = 0 ∨ 0 ≤ ch.bytesDone)

/-- The condition on a packet for which the receiver has prepared a message; a packet that
it does not want has been reset. -/
def PktFits (ch : MailboxChannel) : Prop :=
  match ch.curMsg, ch.packet.kind with
  | some _, some .msgStart => CopyFits ch ch.packet.msgSize msgStartPayload
  | some msg, some .msgBody => CopyFits ch msg.len msgBodyPayload
  | _, _ => True

/-- The condition on the packet that a poll takes from the hardware, if it takes one. -/
def PollFits (ch : MailboxChannel) (tstPkt : MailboxPkt) (poll : RxPoll) : Prop :=
  poll.delivers → PktFits ({ ch with packet := poll.frame.toPkt }.prepareRx tstPkt poll.alloc).1

/-- The condition on one pass of the worker, which serves the software channel first. -/
def EventFits (s : RxState) : RxEvent → Prop
  | .receive swAlloc (some poll) =>
    ∀ ch done recvd, s.ch.doSwRx swAlloc = .ok (ch, done, recvd) → PollFits ch s.tstPkt poll
  | _ => True

/-! ## One packet -/

/-- What holds of the receiving channel whenever its worker is not inside a pass. -/
structure RxSafe (ch : MailboxChannel) : Prop where
  packet : ch.packet.valid = false
  idle : ch.curMsg = none → ch.bytesDone = 0
  within : ∀ m, ch.curMsg = some m → ch.bytesDone ≤ m.len ∧ m.len < 2 ^ 32
  bounds : -2 ^ 31 ≤ ch.bytesDone ∧ ch.bytesDone < 2 ^ 31

theorem toInt32_bounds (x : Int) : -2 ^ 31 ≤ toInt32 x ∧ toInt32 x < 2 ^ 31 := by
  rw [toInt32]
  have low := Int.le_bmod (x := x) (m := 2 ^ 32) (by decide)
  have high := Int.bmod_lt (x := x) (m := 2 ^ 32) (by decide)
  omega

theorem toInt32_le {x : Int} (low : -2 ^ 31 ≤ x) : toInt32 x ≤ x := by
  rcases lt_or_ge x (2 ^ 31) with small | large
  · exact (toInt32_of_bounds low small).le
  · exact ((toInt32_bounds x).2.trans_le large).le

section OnePacket

variable {ch : MailboxChannel} {msg : MailboxMsg} {off : Nat}

theorem memcpyPkt2Msg_cases (pkt : MailboxPkt) {at' : Int} {cnt : Nat} (offIn : off ≤ packetBytes)
    (room : at' + cnt ≤ msg.len) :
    (cnt ≤ MailboxChannel.capacity off ∧ (cnt = 0 ∨ 0 ≤ at')) ∧
      (∃ m, memcpyPkt2Msg msg at' pkt off cnt = .ok m ∧ m.len = msg.len) ∨
    ¬ (cnt ≤ MailboxChannel.capacity off ∧ (cnt = 0 ∨ 0 ≤ at')) ∧
      ∃ fault, memcpyPkt2Msg msg at' pkt off cnt = .error fault ∧ fault ≠ .bug := by
  have capacity : cnt ≤ MailboxChannel.capacity off ↔ off + cnt ≤ packetBytes := by
    rw [MailboxChannel.capacity]
    omega
  rw [memcpyPkt2Msg, capacity]
  by_cases empty : cnt = 0
  · left
    rw [if_pos empty]
    exact ⟨⟨by omega, Or.inl empty⟩, msg, rfl, rfl⟩
  rw [if_neg empty]
  by_cases outside : packetBytes < off + cnt
  · -- the source does not compare the payload size with what a packet holds
    right
    rw [if_pos outside]
    exact ⟨fun fits => by omega, .outsidePacket, rfl, by decide⟩
  have inPkt : off + cnt ≤ pkt.bytes.length := by
    rw [pkt.size]
    omega
  rw [if_neg outside]
  by_cases start : 0 ≤ at'
  · left
    have fits := msg.fits
    have inside : 0 ≤ at' ∧ at'.toNat + (slice pkt.bytes off cnt).length ≤ msg.data.length := by
      rw [length_slice inPkt]
      omega
    rw [dif_pos inside]
    exact ⟨⟨by omega, Or.inr start⟩, _, rfl, rfl⟩
  · -- the position has wrapped around: the copy would start in front of the buffer
    right
    rw [dif_neg fun inside => start inside.1]
    refine ⟨?_, .outsideBuffer, rfl, by decide⟩
    rintro ⟨-, zero | nonneg⟩
    · exact empty zero
    · exact start nonneg

/-- The channel right after a packet has been refused or copied. -/
structure Copied (ch : MailboxChannel) : Prop where
  packet : ch.packet.valid = false
  current : ∃ m, ch.curMsg = some m ∧ ch.bytesDone ≤ m.len ∧ m.len < 2 ^ 32
  bounds : -2 ^ 31 ≤ ch.bytesDone ∧ ch.bytesDone < 2 ^ 31

theorem Copied.safe (copied : Copied ch) : RxSafe ch := by
  obtain ⟨m, current, within⟩ := copied.current
  constructor
  · exact copied.packet
  · intro none
    rw [current] at none
    cases none
  · intro m' current'
    rw [current] at current'
    cases current'
    exact within
  · exact copied.bounds

theorem copyPkt2Msg_cases (offIn : off ≤ packetBytes) (within : ch.bytesDone ≤ msg.len)
    (small : msg.len < 2 ^ 32) (bounds : -2 ^ 31 ≤ ch.bytesDone ∧ ch.bytesDone < 2 ^ 31) :
    CopyFits ch msg.len off ∧
      (∃ ch' err, ch.copyPkt2Msg msg off = .ok (ch', err) ∧ Copied ch') ∨
    ¬ CopyFits ch msg.len off ∧
      ∃ fault, ch.copyPkt2Msg msg off = .error fault ∧ fault ≠ .bug := by
  have rest : (sizeT (msg.len - ch.bytesDone) : Int) = msg.len - ch.bytesDone := by
    rw [sizeT_of_bounds] <;> omega
  simp only [MailboxChannel.copyPkt2Msg, CopyFits]
  by_cases refused : sizeT (msg.len - ch.bytesDone) < ch.packet.payloadSize
  · -- `chan_pkt2msg` fails, the packet is gone and the message is as before
    left
    rw [if_pos refused]
    refine ⟨Or.inl refused, _, _, rfl, ?_⟩
    exact ⟨reset_valid ch.packet, ⟨msg, rfl, within, small⟩, bounds⟩
  · rw [if_neg refused]
    have room : ch.bytesDone + ch.packet.payloadSize ≤ msg.len := by omega
    rcases memcpyPkt2Msg_cases ch.packet offIn room with
      ⟨fits, m, copied, len⟩ | ⟨misfit, fault, failed, noBug⟩
    · left
      have advance := toInt32_le (x := ch.bytesDone + ch.packet.payloadSize) (by omega)
      rw [copied]
      refine ⟨Or.inr fits, _, _, rfl, reset_valid ch.packet, ⟨m, rfl, ?_, ?_⟩, toInt32_bounds _⟩
      · rw [len]
        exact advance.trans room
      · rw [len]
        exact small
    · right
      rw [failed]
      exact ⟨fun fits => fits.elim refused misfit, fault, rfl, noBug⟩

theorem dequeueRxMsg_cases {flags : BitVec 32} {id : BitVec 64} {sz : Nat} {alloc : Option Nat}
    (free : ch.curMsg = none) (start : ch.bytesDone = 0) :
    let next := (ch.dequeueRxMsg flags id sz alloc).1
    (next.packet = ch.packet ∧ next.bytesDone = 0 ∧ next.swChanBuf = ch.swChanBuf) ∧
      (next.curMsg = none ∨ ∃ m, next.curMsg = some m ∧ sz ≤ m.len) := by
  simp only [MailboxChannel.dequeueRxMsg, free, Option.isSome_none, Bool.false_eq_true, if_false]
  split
  · cases found : (ch.chanMsgDequeue id).2 with
    | none => exact ⟨⟨rfl, start, rfl⟩, Or.inl rfl⟩
    | some msg =>
      simp only
      split
      · exact ⟨⟨rfl, rfl, rfl⟩, Or.inl rfl⟩
      · exact ⟨⟨rfl, start, rfl⟩, Or.inr ⟨msg, rfl, by omega⟩⟩
  · split
    · cases alloc with
      | none => exact ⟨⟨rfl, start, rfl⟩, Or.inl free⟩
      | some ptr =>
        simp only
        split
        · exact ⟨⟨rfl, start, rfl⟩, Or.inr ⟨_, rfl, by simp [allocMsg]⟩⟩
        · exact ⟨⟨rfl, start, rfl⟩, Or.inl free⟩
    · exact ⟨⟨rfl, start, rfl⟩, Or.inl free⟩

theorem chanMsgDone_free {err : Int} (idle : ch.curMsg = none → ch.bytesDone = 0) :
    let next := (ch.chanMsgDone err).1
    next.packet = ch.packet ∧ next.bytesDone = 0 ∧ next.curMsg = none := by
  rw [MailboxChannel.chanMsgDone]
  split
  next free => exact ⟨rfl, idle free, free⟩
  · exact ⟨rfl, rfl, rfl⟩

theorem RxSafe.of_free (packet : ch.packet.valid = false) (free : ch.curMsg = none)
    (start : ch.bytesDone = 0) : RxSafe ch := by
  constructor
  · exact packet
  · exact fun _ => start
  · intro m current
    rw [free] at current
    cases current
  · rw [start]
    decide

theorem RxSafe.reset (safe : RxSafe ch) (pkt : MailboxPkt) :
    RxSafe { ch with packet := pkt.reset } :=
  ⟨reset_valid pkt, safe.idle, safe.within, safe.bounds⟩

/-- The receiver drops the packet, or it has a message that takes it. -/
theorem prepareRx_cases {tstPkt : MailboxPkt} {alloc : Option Nat} (pkt : MailboxPkt)
    (safe : RxSafe ch) :
    let next := ({ ch with packet := pkt }.prepareRx tstPkt alloc).1
    (RxSafe next ∧ (next.curMsg = none ∨
      pkt.kind ≠ some .msgStart ∧ next.curMsg = ch.curMsg ∧ next.bytesDone = ch.bytesDone)) ∨
    (next.packet = pkt ∧ pkt.kind = some .msgStart ∧ next.bytesDone = 0 ∧
      ∃ m, next.curMsg = some m ∧ pkt.msgSize ≤ m.len) ∨
    (next = { ch with packet := pkt } ∧ pkt.kind = some .msgBody ∧ ∃ m, ch.curMsg = some m) := by
  have dropped : RxSafe { ch with packet := pkt.reset } := safe.reset pkt
  simp only [MailboxChannel.prepareRx]
  split
  next kind => exact Or.inl ⟨dropped, Or.inr ⟨by simp [kind], rfl, rfl⟩⟩
  next kind =>
    -- the message in progress is given up, so the channel is free for `dequeue_rx_msg`
    obtain ⟨samePkt, start, free⟩ :=
      @chanMsgDone_free { ch with packet := pkt } (-EBADMSG) safe.idle
    generalize { ch with packet := pkt }.chanMsgDone (-EBADMSG) = given at samePkt start free
    obtain ⟨⟨samePkt', start', -⟩, taken⟩ := @dequeueRxMsg_cases given.1 given.1.packet.msgFlags
      given.1.packet.msgReqId given.1.packet.msgSize alloc free start
    rcases taken with free' | ⟨m, current, enough⟩
    · left
      simp only [free', Option.isNone_none, if_true]
      exact ⟨RxSafe.of_free (reset_valid _) free' start', Or.inl free'⟩
    · right
      left
      simp only [current, Option.isNone_some, Bool.false_eq_true, if_false]
      refine ⟨samePkt'.trans samePkt, kind, start', m, rfl, ?_⟩
      rw [samePkt] at enough
      exact enough
  next kind =>
    -- a body packet continues the message in progress, or there is none and it is dropped
    by_cases free : ch.curMsg.isNone = true
    · left
      rw [if_pos free]
      exact ⟨dropped, Or.inl (Option.isNone_iff_eq_none.mp free)⟩
    · right
      right
      rw [if_neg free]
      obtain ⟨m, current⟩ : ∃ m, ch.curMsg = some m := by
        rw [Option.isNone_iff_eq_none] at free
        exact Option.ne_none_iff_exists'.mp free
      exact ⟨rfl, kind, m, current⟩
  next other _ => exact Or.inl ⟨dropped, Or.inr ⟨by simpa using other, rfl, rfl⟩⟩

theorem chanPkt2Msg_cases {m : MailboxMsg} (current : ch.curMsg = some m)
    (bounds : -2 ^ 31 ≤ ch.bytesDone ∧ ch.bytesDone < 2 ^ 31)
    (kind : (ch.packet.kind = some .msgStart ∧ ch.bytesDone = 0 ∧ ch.packet.msgSize ≤ m.len) ∨
      (ch.packet.kind = some .msgBody ∧ ch.bytesDone ≤ m.len ∧ m.len < 2 ^ 32)) :
    PktFits ch ∧ (∃ ch' err, ch.chanPkt2Msg = .ok (ch', err) ∧ Copied ch') ∨
    ¬ PktFits ch ∧ ∃ fault, ch.chanPkt2Msg = .error fault ∧ fault ≠ .bug := by
  rcases kind with ⟨start, zero, enough⟩ | ⟨body, within, small⟩
  · -- the length comes from a field of 32 bits and has been checked against the buffer
    have small : ch.packet.msgSize < 2 ^ 32 := load_lt ch.packet 20 4
    simp only [MailboxChannel.chanPkt2Msg, PktFits, current, start, dif_pos enough]
    exact @copyPkt2Msg_cases ch
      { m with
        reqId := ch.packet.msgReqId
        len := ch.packet.msgSize
        fits := enough.trans m.fits }
      msgStartPayload (by decide) (by rw [zero]; exact Int.natCast_nonneg _) small bounds
  · simp only [MailboxChannel.chanPkt2Msg, PktFits, current, body]
    exact copyPkt2Msg_cases (by decide : msgBodyPayload ≤ packetBytes) within small bounds

/-- The outcome of a pass of the receiver, against the condition that decides it. -/
def Decides (fits : Prop) (result : Except Fault Received) : Prop :=
  fits ∧ (∃ received, result = .ok received ∧ RxSafe received.ch) ∨
    ¬ fits ∧ ∃ fault, result = .error fault ∧ fault ≠ .bug

theorem kind_of_invalid {pkt : MailboxPkt} (invalid : pkt.valid = false) : pkt.kind = some .invalid := by
  have zero : pkt.type = 0 := by simpa [MailboxPkt.valid, PacketType.toBits] using invalid
  rw [MailboxPkt.kind, zero]
  rfl

theorem pktFits_of_invalid (invalid : ch.packet.valid = false) : PktFits ch := by
  rw [PktFits, kind_of_invalid invalid]
  split <;> simp_all

theorem RxSafe.chanMsgDone (safe : RxSafe ch) (err : Int) : RxSafe (ch.chanMsgDone err).1 := by
  obtain ⟨samePkt, start, free⟩ := @chanMsgDone_free ch err safe.idle
  exact RxSafe.of_free (samePkt ▸ safe.packet) free start

theorem handlePkt_decides {tstPkt : MailboxPkt} {alloc : Option Nat} (pkt : MailboxPkt)
    (safe : RxSafe ch) :
    Decides (PktFits ({ ch with packet := pkt }.prepareRx tstPkt alloc).1)
      ({ ch with packet := pkt }.handlePkt tstPkt alloc) := by
  have cases := @prepareRx_cases ch tstPkt alloc pkt safe
  simp only [MailboxChannel.handlePkt]
  generalize { ch with packet := pkt }.prepareRx tstPkt alloc = prepared at cases
  have taken : RxSafe prepared.1 ∨ prepared.1.packet.valid = true ∧
      (PktFits prepared.1 ∧
        (∃ ch' err, prepared.1.chanPkt2Msg = .ok (ch', err) ∧ Copied ch') ∨
      ¬ PktFits prepared.1 ∧
        ∃ fault, prepared.1.chanPkt2Msg = .error fault ∧ fault ≠ .bug) := by
    rcases cases with ⟨dropped, -⟩ | ⟨rfl, kind, start, m, current, enough⟩ | ⟨same, kind, m, current⟩
    · exact Or.inl dropped
    · refine Or.inr ⟨valid_of_kind kind (by decide), ?_⟩
      exact chanPkt2Msg_cases current (by rw [start]; decide) (Or.inl ⟨kind, start, enough⟩)
    · rw [same]
      refine Or.inr ⟨valid_of_kind kind (by decide), ?_⟩
      exact chanPkt2Msg_cases current safe.bounds (Or.inr ⟨kind, safe.within m current⟩)
  rcases taken with dropped | ⟨valid, ⟨fits, ch', err, copied, after⟩ | ⟨misfit, fault, failed⟩⟩
  · left
    rw [dropped.packet]
    exact ⟨pktFits_of_invalid dropped.packet, _, rfl, dropped⟩
  · left
    rw [valid, copied]
    refine ⟨fits, ?_⟩
    by_cases finish : err ≠ 0 ∨ pkt.eom = true
    · exact ⟨_, if_pos finish, after.safe.chanMsgDone err⟩
    · exact ⟨_, if_neg finish, after.safe⟩
  · right
    rw [valid, failed.1]
    exact ⟨misfit, fault, rfl, failed.2⟩

theorem handlePkt_reset (tstPkt : MailboxPkt) (alloc : Option Nat) (pkt : MailboxPkt) :
    { ch with packet := pkt.reset }.handlePkt tstPkt alloc =
      .ok ⟨{ ch with packet := pkt.reset.reset }, tstPkt, [], false⟩ := by
  simp [MailboxChannel.handlePkt, MailboxChannel.prepareRx, reset_kind, MailboxChannel.resetPkt,
    reset_valid]

theorem doHwRx_decides (tstPkt : MailboxPkt) (poll : RxPoll) (safe : RxSafe ch) :
    Decides (PollFits ch tstPkt poll) (ch.doHwRx tstPkt poll) := by
  by_cases delivers : poll.delivers
  · rw [doHwRx_delivers tstPkt delivers safe.packet, PollFits, forall_prop_of_true delivers]
    exact handlePkt_decides poll.frame.toPkt safe
  -- nothing is taken from the packet in any other case
  refine Or.inl ⟨fun delivers' => absurd delivers' delivers, ?_⟩
  rw [MailboxChannel.doHwRx]
  by_cases absent : poll.status = BitVec.allOnes 32 ∨ poll.status &&& statusRta = 0
  · rw [if_pos absent]
    exact ⟨_, rfl, safe⟩
  · rw [if_neg absent, MailboxChannel.chanRecvPkt, safe.packet]
    obtain ⟨present, readable⟩ := not_or.mp absent
    cases rateOk : poll.rateOk with
    | false => exact ⟨_, rfl, safe.reset _⟩
    | true =>
      -- the FIFO ran empty inside the packet, which is dropped
      have incomplete : (poll.error &&& statusEmpty != 0) = true := by
        by_contra complete
        exact delivers ⟨present, readable, by simpa using complete, rateOk⟩
      simp only [incomplete]
      exact ⟨_, handlePkt_reset tstPkt poll.alloc poll.frame.toPkt, safe.reset _⟩

/-- The software channel is always served without a fault. -/
theorem doSwRx_safe (alloc : Option Nat) (safe : RxSafe ch) :
    ∃ ch' done recvd, ch.doSwRx alloc = .ok (ch', done, recvd) ∧ RxSafe ch' := by
  rw [MailboxChannel.doSwRx]
  by_cases busy : ch.curMsg.isSome = true
  · rw [if_pos busy]
    exact ⟨ch, [], false, rfl, safe⟩
  rw [if_neg busy]
  by_cases nothing : ch.swChanMsgId = 0
  · rw [if_pos nothing]
    exact ⟨ch, [], false, rfl, safe⟩
  rw [if_neg nothing]
  have free : ch.curMsg = none := by simpa using busy
  obtain ⟨⟨samePkt, start, sameBuf⟩, taken⟩ := @dequeueRxMsg_cases ch
    (ch.swChanMsgFlags.setWidth 32) ch.swChanMsgId ch.swChanBuf.length alloc free (safe.idle free)
  generalize ch.dequeueRxMsg (ch.swChanMsgFlags.setWidth 32) ch.swChanMsgId ch.swChanBuf.length
    alloc = prepared at samePkt start sameBuf taken
  have packet : prepared.1.packet.valid = false := samePkt ▸ safe.packet
  rcases taken with free' | ⟨m, current, enough⟩
  · simp only [free']
    exact ⟨_, _, _, rfl, RxSafe.of_free packet free' start⟩
  · -- a response fits by the check of `dequeue_rx_msg`, a request gets a buffer of its size
    have inside : 0 + prepared.1.swChanBuf.length ≤ m.data.length := by
      rw [Nat.zero_add, sameBuf]
      exact enough.trans m.fits
    simp only [current, dif_pos inside]
    exact ⟨_, _, _, rfl, RxSafe.of_free packet rfl rfl⟩

end OnePacket

/-! ## Every sequence of events -/

theorem chanDoRx_decides {s : RxState} (swAlloc : Option Nat) (poll : Option RxPoll)
    (safe : RxSafe s.ch) :
    Decides (EventFits s (.receive swAlloc poll)) (s.ch.chanDoRx s.tstPkt swAlloc poll) := by
  obtain ⟨ch, done, recvd, served, safe'⟩ := doSwRx_safe swAlloc safe
  simp only [MailboxChannel.chanDoRx, served, bind, Except.bind]
  cases poll with
  | none => exact Or.inl ⟨trivial, _, rfl, safe'⟩
  | some poll =>
    have condition : EventFits s (.receive swAlloc (some poll)) ↔ PollFits ch s.tstPkt poll := by
      simp [EventFits, served]
    rw [condition]
    rcases doHwRx_decides s.tstPkt poll safe' with
      ⟨fits, received, result, after⟩ | ⟨misfit, fault, result, noBug⟩
    · simp only [result]
      exact Or.inl ⟨fits, _, rfl, after⟩
    · simp only [result]
      exact Or.inr ⟨misfit, fault, rfl, noBug⟩

/-- Messages in line and the software channel play no part. -/
theorem RxSafe.congr {ch ch' : MailboxChannel} (safe : RxSafe ch)
    (packet : ch'.packet = ch.packet) (current : ch'.curMsg = ch.curMsg)
    (position : ch'.bytesDone = ch.bytesDone) : RxSafe ch' := by
  constructor
  · rw [packet]
    exact safe.packet
  · rw [current, position]
    exact safe.idle
  · rw [current, position]
    exact safe.within
  · rw [position]
    exact safe.bounds

theorem timeoutMsg_safe {ch : MailboxChannel} (safe : RxSafe ch) : RxSafe ch.timeoutMsg.1 := by
  have current : RxSafe ch.timeoutCur.1 := by
    rw [MailboxChannel.timeoutCur]
    split
    · exact safe
    next msg current =>
      split
      · have cleaned : RxSafe ch.cleanupSwCh := safe.congr rfl rfl rfl
        exact cleaned.chanMsgDone (-ETIME)
      · -- only the time to live changes
        constructor
        · exact safe.packet
        · intro free
          cases free
        · intro m current'
          cases current'
          exact safe.within msg current
        · exact safe.bounds
  exact current.congr rfl rfl rfl

theorem rxEvent_safe (s : RxState) (e : RxEvent) (t : RxState) (safe : RxSafe s.ch)
    (stepped : rxEvent s e = some t) : RxSafe t.ch := by
  cases e with
  | receive swAlloc poll =>
    simp only [rxEvent] at stepped
    rcases chanDoRx_decides swAlloc poll safe with
      ⟨-, received, result, after⟩ | ⟨-, fault, result, -⟩
    · rw [result] at stepped
      cases stepped
      exact after
    · rw [result] at stepped
      cases stepped
  | write id flags payload vmallocOk =>
    cases stepped
    simp only [MailboxChannel.mailboxWrite]
    split
    · exact safe
    · split
      · exact safe
      · split
        · exact safe
        · exact safe.congr rfl rfl rfl
  | enqueue msg =>
    cases stepped
    simp only [MailboxChannel.chanMsgEnqueue]
    split
    · exact safe
    · split
      · exact safe
      · exact safe.congr rfl rfl rfl
  | dequeue reqId =>
    cases stepped
    exact safe.congr rfl rfl rfl
  | tick =>
    cases stepped
    exact timeoutMsg_safe safe

theorem rxEvent_isSome_iff (s : RxState) (e : RxEvent) (safe : RxSafe s.ch) :
    (rxEvent s e).isSome ↔ EventFits s e := by
  cases e with
  | receive swAlloc poll =>
    simp only [rxEvent]
    rcases chanDoRx_decides swAlloc poll safe with
      ⟨fits, received, result, -⟩ | ⟨misfit, fault, result, -⟩
    · rw [result]
      exact iff_of_true rfl fits
    · rw [result]
      exact iff_of_false Bool.false_ne_true misfit
  | write | enqueue | dequeue | tick => exact iff_of_true rfl trivial

theorem rxInit_safe : RxSafe rxInit.ch := RxSafe.of_free (by decide) rfl rfl

/-- Whatever packets arrive in whatever state of the receiver, no `BUG_ON` is reached, and
all accesses stay inside the packet and the buffer if and only if every packet taken has a
payload that fits. -/
theorem doHwRx_robust_iff (events : List RxEvent) :
    ((run rxEvent rxInit events).isSome ↔ Along rxEvent EventFits rxInit events) ∧
      ∀ s, run rxEvent rxInit events = some s →
        ∀ swAlloc poll, s.ch.chanDoRx s.tstPkt swAlloc poll ≠ .error .bug := by
  constructor
  · exact run_isSome_iff_along (P := fun s => RxSafe s.ch) rxEvent_safe rxEvent_isSome_iff
      rxInit_safe events
  · intro s ran swAlloc poll bug
    have safe : RxSafe s.ch :=
      run_invariant (P := fun s => RxSafe s.ch) rxEvent_safe rxInit_safe ran
    rcases chanDoRx_decides swAlloc poll safe with
      ⟨-, received, result, -⟩ | ⟨-, fault, result, noBug⟩
    · rw [result] at bug
      cases bug
    · rw [result] at bug
      cases bug
      exact noBug rfl

/-- A pass that takes a start packet which announces a request of `size` bytes and all of
them as its payload. -/
def receiveRequest (size : Nat) : RxEvent :=
  let pkt := ((((zeroPkt.setType (MailboxChannel.typeWord true true)).setPayloadSize
    size).setMsgReqId 5).setMsgSize size).setMsgFlags xclMbReqFlagRequest
  .receive none (some ⟨statusRta, pkt.toFrame, 0, true, some 1⟩)

/-- Two full packets, then one that announces a byte too many. -/
theorem doHwRx_robust_iff_at_capacity :
    Along rxEvent EventFits rxInit [receiveRequest 40, receiveRequest 40] ∧
      ¬ Along rxEvent EventFits rxInit [receiveRequest 40, receiveRequest 41] := by
  constructor
  · exact (doHwRx_robust_iff _).1.mp rfl
  · intro fits
    exact Bool.false_ne_true ((doHwRx_robust_iff _).1.mpr fits)

/-- 100 bytes from offset 24 of a packet of 64: the copy reads 60 bytes behind the packet. -/
theorem doHwRx_reads_outside_packet :
    run rxEvent rxInit [receiveRequest 100] = none ∧
      ∃ poll, receiveRequest 100 = .receive none (some poll) ∧
        rxInit.ch.doHwRx rxInit.tstPkt poll = .error .outsidePacket :=
  ⟨rfl, _, rfl, rfl⟩

end Xrt.Mailbox
