import Xrt.Errno
import Xrt.Mailbox.Packet

/-!
# Mailbox channels

The message layer of `mailbox.c`: the two directions of a channel as its worker thread
drives them. Every function returns the messages on which it called `msg_done`, in order;
what becomes of a finished message is a matter of the mailbox above.

An access of `memcpy` outside the packet or outside the buffer of the message, and a
`BUG_ON` that fires, are the error results of a function.
-/
namespace Xrt.Mailbox

open Lib

inductive Fault where
  | bug
  | outsidePacket
  | outsideBuffer
  deriving DecidableEq, Repr

/-- `struct mailbox_msg`. `ptr` is the address of the structure and `data` the memory
behind `mbm_data`, which holds at least `mbm_len` bytes. -/
structure MailboxMsg where
  ptr : Nat
  reqId : BitVec 64
  data : List Byte
  len : Nat
  fits : len ≤ data.length
  error : Int
  cb : Bool
  flags : BitVec 32
  timeoutInSec : Nat
  ttl : Nat
  chanSw : Bool
  deriving DecidableEq, Repr

/-- `struct mailbox_channel`. The software channel holds a message when `swChanMsgId` is
not zero; `sw_chan_buf_sz` is the length of `swChanBuf`. `allocs` is no field of the source:
it records the addresses that `alloc_msg` has returned to `dequeue_rx_msg`. -/
structure MailboxChannel where
  msgs : List MailboxMsg
  curMsg : Option MailboxMsg
  bytesDone : Int
  packet : MailboxPkt
  swChanBuf : List Byte
  swChanMsgId : BitVec 64
  swChanMsgFlags : BitVec 64
  stopped : Bool
  allocs : List Nat
  deriving DecidableEq, Repr

def xclMbReqFlagResponse : BitVec 32 := 1 <<< 0
def xclMbReqFlagRequest : BitVec 32 := 1 <<< 1
def invalidMsgId : BitVec 64 := BitVec.allOnes 64
/-- `MAX_MSG_SZ`, with pages of 4096 bytes. -/
def maxMsgSz : Nat := 4096 <<< 15
def msgMaxTtl : Nat := 0xffffffff

def statusEmpty : BitVec 32 := 1 <<< 0
def statusFull : BitVec 32 := 1 <<< 1
def statusSta : BitVec 32 := 1 <<< 2
def statusRta : BitVec 32 := 1 <<< 3

def sizeT (x : Int) : Nat := (x % 2 ^ 64).toNat

/-- Conversion to `int`. -/
def toInt32 (x : Int) : Int := x.bmod (2 ^ 32)

theorem sizeT_of_bounds {x : Int} (nonneg : 0 ≤ x) (bound : x < 2 ^ 64) : sizeT x = x.toNat := by
  rw [sizeT, Int.emod_eq_of_lt nonneg bound]

theorem toInt32_of_bounds {x : Int} (low : -2 ^ 31 ≤ x) (high : x < 2 ^ 31) : toInt32 x = x := by
  rw [toInt32, Int.bmod_eq_of_le] <;> omega

/-! ## Messages -/

/-- `alloc_msg`, for a buffer with the given contents. -/
def allocMsg (ptr : Nat) (data : List Byte) : MailboxMsg where
  ptr := ptr
  reqId := 0
  data := data
  len := data.length
  fits := Nat.le_refl _
  error := 0
  cb := false
  flags := 0
  timeoutInSec := 0
  ttl := msgMaxTtl
  chanSw := false

variable (msg : MailboxMsg)

/-- The message after `new` has been copied into its buffer. -/
def MailboxMsg.write (off : Nat) (new : List Byte)
    (inside : off + new.length ≤ msg.data.length) : MailboxMsg :=
  { msg with
    data := patch msg.data off new
    fits := msg.fits.trans_eq (length_patch inside).symm }

/-- `msg_timer_on`; `MAILBOX_SEC2TIMER` makes ten ticks of a second. -/
def msgTimerOn (isRx : Bool) (msg : MailboxMsg) (ttl : Nat) : MailboxMsg :=
  let ttl := if ttl = 0 then (if isRx then 20 else if msg.chanSw then 6 else 2) else ttl
  { msg with ttl := ttl * 10 % 2 ^ 32 }

def zeroPkt : MailboxPkt := ⟨List.replicate packetBytes 0, List.length_replicate⟩

namespace MailboxChannel

/-- The channel that `chan_init` sets up in zeroed memory. -/
def init : MailboxChannel where
  msgs := []
  curMsg := none
  bytesDone := 0
  packet := zeroPkt
  swChanBuf := []
  swChanMsgId := 0
  swChanMsgFlags := 0
  stopped := false
  allocs := []

variable (ch : MailboxChannel)

def resetPkt : MailboxChannel := { ch with packet := ch.packet.reset }

def chanMsgDone (err : Int) : MailboxChannel × List MailboxMsg :=
  match ch.curMsg with
  | none => (ch, [])
  | some msg => ({ ch with curMsg := none, bytesDone := 0 }, [{ msg with error := err }])

def chanMsgEnqueue : MailboxChannel × Int :=
  if msg.reqId = invalidMsgId then (ch, -EINVAL)
  else if ch.stopped then (ch, -ESHUTDOWN)
  else ({ ch with msgs := ch.msgs ++ [msg] }, 0)

/-- Whether `chan_msg_dequeue` takes the message when it is asked for `reqId`. -/
def wanted (reqId : BitVec 64) (msg : MailboxMsg) : Bool :=
  reqId = invalidMsgId || msg.reqId = reqId

/-- `chan_msg_dequeue`: the first message in line, or the first one with the given id. -/
def chanMsgDequeue (reqId : BitVec 64) : MailboxChannel × Option MailboxMsg :=
  ({ ch with msgs := ch.msgs.eraseP (wanted reqId) }, ch.msgs.find? (wanted reqId))

def cleanupSwCh : MailboxChannel :=
  { ch with swChanBuf := [], swChanMsgFlags := 0, swChanMsgId := 0 }

/-- The first half of `timeout_msg`: the current message. -/
def timeoutCur : MailboxChannel × List MailboxMsg :=
  match ch.curMsg with
  | none => (ch, [])
  | some msg =>
    if msg.ttl = 0 then ch.cleanupSwCh.chanMsgDone (-ETIME)
    else ({ ch with curMsg := some { msg with ttl := msg.ttl - 1 } }, [])

/-- A message in line whose time is over; messages without an id do not age. -/
def expired : Bool := msg.reqId != 0 && msg.ttl = 0

def age : MailboxMsg :=
  if msg.reqId = 0 then msg else { msg with ttl := msg.ttl - 1 }

/-- The second half of `timeout_msg`: the messages in line. -/
def timeoutWaiting : MailboxChannel × List MailboxMsg :=
  ({ ch with msgs := (ch.msgs.filter fun msg => !expired msg).map age },
    (ch.msgs.filter expired).map fun msg => { msg with error := -ETIME })

def timeoutMsg : MailboxChannel × List MailboxMsg :=
  let (ch, active) := ch.timeoutCur
  let (ch, waiting) := ch.timeoutWaiting
  (ch, active ++ waiting)

/-! ## Receiving -/

/-- `dequeue_rx_msg`. `alloc` is the address of the message that `alloc_msg` returns for a
request, if it succeeds; the memory comes zeroed. -/
def dequeueRxMsg (flags : BitVec 32) (id : BitVec 64) (sz : Nat)
    (alloc : Option Nat) : MailboxChannel × List MailboxMsg :=
  if ch.curMsg.isSome then (ch, [])
  else if flags &&& xclMbReqFlagResponse != 0 then
    let (ch, msg) := ch.chanMsgDequeue id
    let ch := { ch with curMsg := msg }
    match msg with
    | none => (ch, [])
    | some msg => if msg.len < sz then ch.chanMsgDone (-EMSGSIZE) else (ch, [])
  else if flags &&& xclMbReqFlagRequest != 0 then
    match alloc with
    | none => (ch, [])
    | some ptr =>
      if sz < maxMsgSz then
        let msg := { allocMsg ptr (List.replicate sz 0) with reqId := id, flags := flags }
        ({ ch with curMsg := some msg, allocs := ch.allocs ++ [ptr] }, [])
      else (ch, [])
  else (ch, [])

end MailboxChannel

/-- What the receiving worker finds at the hardware when it polls: the status register,
the words in the FIFO, the error register after them as `mailbox_chk_err` returns it, with 0 for
0xffffffff, and the verdict of `check_recv_pkt_rate`. `alloc` is what an allocation would return. -/
structure RxPoll where
  status : BitVec 32
  frame : Frame
  error : BitVec 32
  rateOk : Bool
  alloc : Option Nat
  deriving DecidableEq, Repr

/-- What a step of the receiving worker leaves: the channel, the test packet of the
mailbox, the messages it finished, and whether it received anything. -/
structure Received where
  ch : MailboxChannel
  tstPkt : MailboxPkt
  done : List MailboxMsg
  recvd : Bool
  deriving DecidableEq, Repr

/-- The `memcpy` of `cnt` bytes of the packet from `off` on to `at'` in the message. -/
def memcpyPkt2Msg (at' : Int) (pkt : MailboxPkt) (off cnt : Nat) : Except Fault MailboxMsg :=
  if cnt = 0 then .ok msg
  else if packetBytes < off + cnt then .error .outsidePacket
  else if inside : 0 ≤ at' ∧ at'.toNat + (slice pkt.bytes off cnt).length ≤ msg.data.length then
    .ok (msg.write at'.toNat (slice pkt.bytes off cnt) inside.2)
  else .error .outsideBuffer

namespace MailboxChannel

variable (ch : MailboxChannel)

/-- The part of `chan_pkt2msg` after the kind of the packet has been decided. -/
def copyPkt2Msg (off : Nat) : Except Fault (MailboxChannel × Int) :=
  let cnt := ch.packet.payloadSize
  if sizeT (msg.len - ch.bytesDone) < cnt then
    .ok ({ ch with curMsg := some msg }.resetPkt, -EBADMSG)
  else do
    let msg ← memcpyPkt2Msg msg ch.bytesDone ch.packet off cnt
    .ok ({ ch with curMsg := some msg, bytesDone := toInt32 (ch.bytesDone + cnt) }.resetPkt, 0)

/-- `chan_pkt2msg`. -/
def chanPkt2Msg : Except Fault (MailboxChannel × Int) :=
  match ch.curMsg, ch.packet.kind with
  | some msg, some .msgStart =>
    if enough : ch.packet.msgSize ≤ msg.len then
      ch.copyPkt2Msg
        { msg with
          reqId := ch.packet.msgReqId
          len := ch.packet.msgSize
          fits := enough.trans msg.fits }
        msgStartPayload
    else .error .bug
  | some msg, some .msgBody => ch.copyPkt2Msg msg msgBodyPayload
  | _, _ => .error .bug

def chanRecvPkt (poll : RxPoll) : Except Fault (MailboxChannel × Bool) :=
  if ch.packet.valid then .error .bug
  else
    let pkt := poll.frame.toPkt
    let pkt := if poll.error &&& statusEmpty != 0 then pkt.reset else pkt
    .ok ({ ch with packet := pkt }, poll.rateOk)

/-- The `switch` of `do_hw_rx` over the type of the packet just received. -/
def prepareRx (tstPkt : MailboxPkt) (alloc : Option Nat) :
    MailboxChannel × MailboxPkt × List MailboxMsg :=
  match ch.packet.kind with
  | some .test => (ch.resetPkt, ch.packet, [])
  | some .msgStart =>
    -- a message that is still incomplete is given up
    let (ch, unfinished) := ch.chanMsgDone (-EBADMSG)
    let (ch, refused) :=
      ch.dequeueRxMsg ch.packet.msgFlags ch.packet.msgReqId ch.packet.msgSize alloc
    (if ch.curMsg.isNone then ch.resetPkt else ch, tstPkt, unfinished ++ refused)
  | some .msgBody => (if ch.curMsg.isNone then ch.resetPkt else ch, tstPkt, [])
  | _ => (ch.resetPkt, tstPkt, [])

/-- The part of `do_hw_rx` after a packet has been received. -/
def handlePkt (tstPkt : MailboxPkt) (alloc : Option Nat) : Except Fault Received :=
  let eom := ch.packet.eom
  let (ch, tstPkt, done) := ch.prepareRx tstPkt alloc
  if ch.packet.valid then do
    let (ch, err) ← ch.chanPkt2Msg
    if err ≠ 0 ∨ eom then
      let (ch, finished) := ch.chanMsgDone err
      .ok ⟨ch, tstPkt, done ++ finished, true⟩
    else .ok ⟨ch, tstPkt, done, true⟩
  else .ok ⟨ch, tstPkt, done, false⟩

def doHwRx (tstPkt : MailboxPkt) (poll : RxPoll) : Except Fault Received :=
  if poll.status = BitVec.allOnes 32 ∨ poll.status &&& statusRta = 0 then
    .ok ⟨ch, tstPkt, [], false⟩
  else do
    let (ch, rateOk) ← ch.chanRecvPkt poll
    if !rateOk then .ok ⟨ch.resetPkt, tstPkt, [], false⟩
    else ch.handlePkt tstPkt poll.alloc

/-- `do_sw_rx`. The length of the message stays what it was. -/
def doSwRx (alloc : Option Nat) : Except Fault (MailboxChannel × List MailboxMsg × Bool) :=
  if ch.curMsg.isSome then .ok (ch, [], false)
  else if ch.swChanMsgId = 0 then .ok (ch, [], false)
  else
    let (ch, refused) :=
      ch.dequeueRxMsg (ch.swChanMsgFlags.setWidth 32) ch.swChanMsgId ch.swChanBuf.length alloc
    match ch.curMsg with
    | none =>
      .ok (ch.cleanupSwCh, refused, true)
    | some msg =>
      if inside : 0 + ch.swChanBuf.length ≤ msg.data.length then
        let msg := { msg with chanSw := true }
        let ch := { ch with curMsg := some (msg.write 0 ch.swChanBuf inside) }
        let (ch, finished) := ch.cleanupSwCh.chanMsgDone 0
        .ok (ch, refused ++ finished, true)
      else .error .outsideBuffer

/-- `chan_do_rx`; a mailbox without registers has the software channel only. -/
def chanDoRx (tstPkt : MailboxPkt) (swAlloc : Option Nat)
    (poll : Option RxPoll) : Except Fault Received := do
  let (ch, done, recvdSw) ← ch.doSwRx swAlloc
  match poll with
  | none => .ok ⟨ch, tstPkt, done, recvdSw⟩
  | some poll =>
    let hw ← ch.doHwRx tstPkt poll
    .ok { hw with done := done ++ hw.done, recvd := recvdSw || hw.recvd }

end MailboxChannel

/-- The poll finds a packet, reads all of it and is not throttled. -/
def RxPoll.delivers (poll : RxPoll) : Prop :=
  poll.status ≠ BitVec.allOnes 32 ∧ poll.status &&& statusRta ≠ 0 ∧
    poll.error &&& statusEmpty = 0 ∧ poll.rateOk = true

theorem doHwRx_delivers {ch : MailboxChannel} {poll : RxPoll} (tstPkt : MailboxPkt)
    (delivers : poll.delivers) (idle : ch.packet.valid = false) :
    ch.doHwRx tstPkt poll =
      { ch with packet := poll.frame.toPkt }.handlePkt tstPkt poll.alloc := by
  obtain ⟨present, readable, complete, rateOk⟩ := delivers
  rw [MailboxChannel.doHwRx, if_neg (not_or.mpr ⟨present, readable⟩)]
  simp [MailboxChannel.chanRecvPkt, complete, rateOk, idle, bind, Except.bind]

/-! ## Transmitting -/

/-- The registers that the transmitting worker reads: the status before a packet and the
error register after it, as `mailbox_chk_err` returns it. -/
structure TxRegs where
  status : BitVec 32
  error : BitVec 32
  deriving DecidableEq, Repr

/-- What a step of the transmitting worker leaves; `frame` is the packet that it wrote to
the hardware FIFO. -/
structure Sent where
  ch : MailboxChannel
  tstPkt : MailboxPkt
  done : List MailboxMsg
  frame : Option Frame
  sent : Bool
  deriving DecidableEq, Repr

namespace MailboxChannel

variable (ch : MailboxChannel)

def isTxChanReady (regs : Option TxRegs) : Bool :=
  match regs with
  | none => ch.swChanMsgId == 0
  | some regs =>
    ch.swChanMsgId == 0 && regs.status != BitVec.allOnes 32 && regs.status &&& statusSta != 0

def dequeueTxMsg : MailboxChannel :=
  let (ch, msg) := ch.chanMsgDequeue invalidMsgId
  { ch with curMsg := msg.map fun msg => msgTimerOn false msg msg.timeoutInSec }

/-- The number of payload bytes that fit behind `off`. -/
def capacity (off : Nat) : Nat := packetBytes - off

/-- The type word that `chan_msg2pkt` gives a packet. -/
def typeWord (isStart isEom : Bool) : BitVec 32 :=
  (if isStart then PacketType.msgStart else PacketType.msgBody).toBits |||
    if isEom then pktTypeMsgEnd else 0

/-- `chan_msg2pkt`, for the current message. The bytes of the packet that are not written
keep what the last packet left there. -/
def chanMsg2Pkt : Except Fault MailboxPkt :=
  let isStart : Bool := ch.bytesDone = 0
  let payloadOff := if isStart then msgStartPayload else msgBodyPayload
  let rest := sizeT (msg.len - ch.bytesDone)
  let isEom : Bool := rest ≤ capacity payloadOff
  let cnt := if isEom then rest else capacity payloadOff
  let pkt := ch.packet.setType (typeWord isStart isEom)
  let pkt := pkt.setPayloadSize cnt
  let pkt :=
    if isStart then
      ((pkt.setMsgReqId msg.reqId).setMsgSize (msg.len % 2 ^ 32)).setMsgFlags msg.flags
    else pkt
  if cnt = 0 then .ok pkt
  else if ch.bytesDone < 0 ∨ msg.data.length < ch.bytesDone.toNat + cnt then .error .outsideBuffer
  else
    let payload := slice msg.data ch.bytesDone.toNat cnt
    if inside : payloadOff + payload.length ≤ packetBytes then
      .ok (pkt.store payloadOff payload inside)
    else .error .outsidePacket

def chanSendPkt (regs : TxRegs) : Except Fault (MailboxChannel × Frame) :=
  if !ch.packet.valid then .error .bug
  else if regs.error &&& statusFull != 0 then .error .bug
  else
    let done := if ch.curMsg.isSome then toInt32 (ch.bytesDone + ch.packet.payloadSize)
      else ch.bytesDone
    .ok ({ ch with bytesDone := done }.resetPkt, ch.packet.toFrame)

/-- `do_sw_tx`, for the current message. -/
def doSwTx (vmallocOk : Bool) : Except Fault MailboxChannel :=
  if !msg.chanSw ∨ ch.swChanMsgId ≠ 0 then .error .bug
  else if !vmallocOk then .ok ch
  else .ok { ch with
    swChanBuf := msg.data.take msg.len
    swChanMsgId := msg.reqId
    swChanMsgFlags := msg.flags.setWidth 64
    bytesDone := toInt32 msg.len }

/-- `do_hw_tx`, for the current message. -/
def doHwTx (regs : TxRegs) : Except Fault (MailboxChannel × Frame) :=
  if msg.chanSw then .error .bug
  else do
    let pkt ← ch.chanMsg2Pkt msg
    { ch with packet := pkt }.chanSendPkt regs

/-- The first half of `chan_do_tx`: finish the message that has been sent completely, and
take the next one in line. -/
def nextTxMsg : MailboxChannel × List MailboxMsg :=
  let (ch, done) :=
    match ch.curMsg with
    | some msg => if msg.len = sizeT ch.bytesDone then ch.chanMsgDone 0 else (ch, [])
    | none => (ch, [])
  (if ch.curMsg.isNone then ch.dequeueTxMsg else ch, done)

def chanDoTx (tstPkt : MailboxPkt) (regs : Option TxRegs) (vmallocOk : Bool) : Except Fault Sent :=
  let chanReady := ch.isTxChanReady regs
  let (ch, done) := ch.nextTxMsg
  if !chanReady then .ok ⟨ch, tstPkt, done, none, false⟩
  else match ch.curMsg, regs with
    | some msg, none => do
      let ch ← ch.doSwTx msg vmallocOk
      .ok ⟨ch, tstPkt, done, none, true⟩
    | some msg, some regs =>
      if msg.chanSw then do
        let ch ← ch.doSwTx msg vmallocOk
        .ok ⟨ch, tstPkt, done, none, true⟩
      else do
        let (ch, frame) ← ch.doHwTx msg regs
        .ok ⟨ch, tstPkt, done, some frame, true⟩
    | none, some regs =>
      -- an echo of the test packet, when there is one
      if tstPkt.valid then do
        let (ch, frame) ← { ch with packet := tstPkt }.chanSendPkt regs
        .ok ⟨ch, tstPkt.reset, done, some frame, false⟩
      else .ok ⟨ch, tstPkt, done, none, false⟩
    | none, none => .ok ⟨ch, tstPkt, done, none, false⟩

/-! ## The software channel

Daemons on both sides carry messages from the transmitting channel of one mailbox to the
receiving channel of the other. -/

/-- `mailbox_write`; success is 0 here, not the number of bytes written. -/
def mailboxWrite (id flags : BitVec 64) (payload : List Byte)
    (vmallocOk : Bool) : MailboxChannel × Int :=
  if ch.swChanMsgId ≠ 0 then (ch, -EBUSY)
  else if id = 0 ∨ payload = [] then (ch, -EINVAL)
  else if !vmallocOk then (ch, -ENOMEM)
  else ({ ch with swChanBuf := payload, swChanMsgId := id, swChanMsgFlags := flags }, 0)

end MailboxChannel

end Xrt.Mailbox
