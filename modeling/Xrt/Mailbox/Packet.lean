import Xrt.Lib.Bytes

/-!
# Mailbox packets

The packet layer of `mailbox.c`. A packet is a block of 64 bytes: a header with the type
word and the size of the payload, then either the meta data of a whole message and the
first part of its payload (`PKT_MSG_START`), or payload only (`PKT_MSG_BODY`). It crosses
the hardware FIFO as 16 words.
-/
namespace Xrt.Mailbox

open Lib

/-- `PACKET_SIZE * sizeof(u32)`. -/
def packetBytes : Nat := 64

/-- `struct mailbox_pkt`, as the bytes of its packed layout. -/
structure MailboxPkt where
  bytes : List Byte
  size : bytes.length = packetBytes
  deriving DecidableEq, Repr

inductive PacketType where
  | invalid
  | test
  | msgStart
  | msgBody
  deriving DecidableEq, Repr

def PacketType.toBits : PacketType → BitVec 32
  | .invalid => 0
  | .test => 1
  | .msgStart => 2
  | .msgBody => 3

def PacketType.ofBits (bits : BitVec 32) : Option PacketType :=
  [.invalid, .test, .msgStart, .msgBody].find? fun type => type.toBits = bits

def pktTypeMask : BitVec 32 := 0xff
def pktTypeMsgEnd : BitVec 32 := 1 <<< 31

def msgStartPayload : Nat := 24

def msgBodyPayload : Nat := 8

namespace MailboxPkt

variable (pkt : MailboxPkt)

/-- The number in `count` bytes from `off` on. -/
def load (off count : Nat) : Nat := decodeLe (slice pkt.bytes off count)

def store (off : Nat) (new : List Byte) (inside : off + new.length ≤ packetBytes) : MailboxPkt where
  bytes := patch pkt.bytes off new
  size := (length_patch (by rw [pkt.size]; exact inside)).trans pkt.size

def storeLe (off count value : Nat) (inside : off + count ≤ packetBytes) : MailboxPkt :=
  pkt.store off (encodeLe count value) (by rw [length_encodeLe]; exact inside)

def type : BitVec 32 := BitVec.ofNat 32 (pkt.load 0 4)
def payloadSize : Nat := pkt.load 4 4
def msgReqId : BitVec 64 := BitVec.ofNat 64 (pkt.load 8 8)
def msgFlags : BitVec 32 := BitVec.ofNat 32 (pkt.load 16 4)
def msgSize : Nat := pkt.load 20 4

def setType (type : BitVec 32) : MailboxPkt :=
  pkt.storeLe 0 4 type.toNat (by decide)
def setPayloadSize (size : Nat) : MailboxPkt :=
  pkt.storeLe 4 4 size (by decide)
def setMsgReqId (id : BitVec 64) : MailboxPkt :=
  pkt.storeLe 8 8 id.toNat (by decide)
def setMsgFlags (flags : BitVec 32) : MailboxPkt :=
  pkt.storeLe 16 4 flags.toNat (by decide)
def setMsgSize (size : Nat) : MailboxPkt :=
  pkt.storeLe 20 4 size (by decide)

/-- `pkt->hdr.type & PKT_TYPE_MASK`, as the packet type it names, if any. -/
def kind : Option PacketType := PacketType.ofBits (pkt.type &&& pktTypeMask)

def eom : Bool := pkt.type &&& pktTypeMsgEnd != 0

def reset : MailboxPkt := pkt.setType PacketType.invalid.toBits

def valid : Bool := pkt.type != PacketType.invalid.toBits

end MailboxPkt

/-- The words of one packet in the hardware FIFO. -/
structure Frame where
  words : List (BitVec 32)
  size : 4 * words.length = packetBytes
  deriving DecidableEq, Repr

variable (pkt : MailboxPkt)

def MailboxPkt.toFrame : Frame where
  words := words pkt.bytes
  size := (length_words (by rw [pkt.size]; decide)).trans pkt.size

def Frame.toPkt (frame : Frame) : MailboxPkt where
  bytes := unwords frame.words
  size := (length_unwords frame.words).trans frame.size

@[simp] theorem Frame.toPkt_toFrame : pkt.toFrame.toPkt = pkt := by
  have whole : 4 ∣ pkt.bytes.length := by rw [pkt.size]; decide
  cases pkt with
  | mk bytes size => simp only [MailboxPkt.toFrame, Frame.toPkt, unwords_words whole]

/-! ## Fields read back -/

section Fields

variable (pkt : MailboxPkt)

theorem load_lt (off count : Nat) : pkt.load off count < 256 ^ count := by
  have short : (slice pkt.bytes off count).length ≤ count := List.length_take_le _ _
  exact (decodeLe_lt _).trans_le (Nat.pow_le_pow_right (by decide) short)

variable {off count : Nat}

theorem load_storeLe_self {value : Nat} (inside : off + count ≤ packetBytes)
    (bounded : value < 256 ^ count) :
    (pkt.storeLe off count value inside).load off count = value := by
  have start : off ≤ pkt.bytes.length := by rw [pkt.size]; omega
  have back := slice_patch_self (encodeLe count value) start
  rw [length_encodeLe] at back
  simp only [MailboxPkt.load, MailboxPkt.storeLe, MailboxPkt.store, back]
  exact decodeLe_encodeLe bounded

theorem load_store_apart {off' : Nat} {new : List Byte} (inside : off + new.length ≤ packetBytes)
    (apart : off' + count ≤ off ∨ off + new.length ≤ off') :
    (pkt.store off new inside).load off' count = pkt.load off' count := by
  have start : off ≤ pkt.bytes.length := by rw [pkt.size]; omega
  rcases apart with before | after
  · simp only [MailboxPkt.load, MailboxPkt.store, slice_patch_before before start]
  · simp only [MailboxPkt.load, MailboxPkt.store, slice_patch_after after start]

theorem load_storeLe_apart {off' count' value : Nat}
    (inside : off + count ≤ packetBytes) (apart : off' + count' ≤ off ∨ off + count ≤ off') :
    (pkt.storeLe off count value inside).load off' count' = pkt.load off' count' :=
  load_store_apart pkt _ (by rw [length_encodeLe]; exact apart)

theorem reset_valid : pkt.reset.valid = false := by
  simp [MailboxPkt.valid, MailboxPkt.type, MailboxPkt.reset, MailboxPkt.setType,
    load_storeLe_self, PacketType.toBits]

theorem reset_kind : pkt.reset.kind = some .invalid := by
  simp [MailboxPkt.kind, MailboxPkt.type, MailboxPkt.reset, MailboxPkt.setType,
    load_storeLe_self, PacketType.ofBits, PacketType.toBits]

variable {pkt} in
theorem valid_of_kind {type : PacketType} (kind : pkt.kind = some type)
    (real : type ≠ .invalid) : pkt.valid = true := by
  by_contra invalid
  have zero : pkt.type = 0 := by simpa [MailboxPkt.valid, PacketType.toBits] using invalid
  rw [MailboxPkt.kind, zero] at kind
  exact real (Option.some.inj kind).symm

theorem slice_store_self {new : List Byte}
    (inside : off + new.length ≤ packetBytes) (whole : new.length = count) :
    slice (pkt.store off new inside).bytes off count = new := by
  rw [← whole]
  apply slice_patch_self
  rw [pkt.size]
  omega

variable (type : BitVec 32) {cnt size : Nat} (id : BitVec 64) (flags : BitVec 32)
  {payload : List Byte}

theorem header_fields (small : cnt < 2 ^ 32) (behind : msgBodyPayload ≤ off)
    (inside : off + payload.length ≤ packetBytes) :
    let filled := ((pkt.setType type).setPayloadSize cnt).store off payload inside
    filled.type = type ∧ filled.payloadSize = cnt := by
  simp only [msgBodyPayload] at behind
  simp only [MailboxPkt.type, MailboxPkt.payloadSize, MailboxPkt.setType,
    MailboxPkt.setPayloadSize]
  simp (disch := omega) only [load_store_apart, load_storeLe_apart, load_storeLe_self]
  exact ⟨BitVec.ofNat_toNat .., trivial⟩

theorem start_fields (small : cnt < 2 ^ 32) (sizeSmall : size < 2 ^ 32)
    (inside : msgStartPayload + payload.length ≤ packetBytes) :
    let filled := (((((pkt.setType type).setPayloadSize cnt).setMsgReqId id).setMsgSize
      size).setMsgFlags flags).store msgStartPayload payload inside
    filled.type = type ∧ filled.payloadSize = cnt ∧ filled.msgReqId = id ∧
      filled.msgFlags = flags ∧ filled.msgSize = size := by
  simp only [MailboxPkt.type, MailboxPkt.payloadSize, MailboxPkt.msgReqId, MailboxPkt.msgFlags,
    MailboxPkt.msgSize, MailboxPkt.setType, MailboxPkt.setPayloadSize, MailboxPkt.setMsgReqId,
    MailboxPkt.setMsgFlags, MailboxPkt.setMsgSize, msgStartPayload]
  simp (disch := omega) only [load_store_apart, load_storeLe_apart, load_storeLe_self]
  simp

end Fields

end Xrt.Mailbox
