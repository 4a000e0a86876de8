import Xrt.Mailbox.Robustness

/-!
# Messages that end too early

A message is finished by the packet with the end mark. How many bytes have been copied by then is
not compared with the length that the first packet has announced.

A packet whose payload goes on behind it does not stop the receiver, so that the functions of the
receiver are followed through such a copy here.
-/
namespace Xrt.Mailbox

open Lib

/-- The message after the fields of a start packet have been taken over. -/
def MailboxMsg.announced (msg : MailboxMsg) (pkt : MailboxPkt) : MailboxMsg :=
  if enough : pkt.kind = some .msgStart ∧ pkt.msgSize ≤ msg.len then
    { msg with reqId := pkt.msgReqId, len := pkt.msgSize, fits := enough.2.trans msg.fits }
  else msg

namespace MailboxChannel

/-- `chan_pkt2msg`, also where the `memcpy` leaves the packet or the buffer. What is copied then is
not known, and left out. -/
def chanPkt2MsgOn (ch : MailboxChannel) : Except Fault (MailboxChannel × Int) :=
  match ch.chanPkt2Msg with
  | .ok result => .ok result
  | .error .bug => .error .bug
  | .error _ =>
    .ok ({ ch with
      curMsg := ch.curMsg.map (MailboxMsg.announced · ch.packet)
      bytesDone := toInt32 (ch.bytesDone + ch.packet.payloadSize) }.resetPkt, 0)

/-- `handlePkt` with that copy. -/
def handlePktOn (ch : MailboxChannel) (tstPkt : MailboxPkt) (alloc : Option Nat) :
    Except Fault Received :=
  let eom := ch.packet.eom
  let (ch, tstPkt, done) := ch.prepareRx tstPkt alloc
  if ch.packet.valid then do
    let (ch, err) ← ch.chanPkt2MsgOn
    if err ≠ 0 ∨ eom then
      let (ch, finished) := ch.chanMsgDone err
      .ok ⟨ch, tstPkt, done ++ finished, true⟩
    else .ok ⟨ch, tstPkt, done, true⟩
  else .ok ⟨ch, tstPkt, done, false⟩

/-- `do_hw_rx` with that copy. -/
def doHwRxOn (ch : MailboxChannel) (tstPkt : MailboxPkt) (poll : RxPoll) : Except Fault Received :=
  if poll.status = BitVec.allOnes 32 ∨ poll.status &&& statusRta = 0 then
    .ok ⟨ch, tstPkt, [], false⟩
  else do
    let (ch, rateOk) ← ch.chanRecvPkt poll
    if !rateOk then .ok ⟨ch.resetPkt, tstPkt, [], false⟩
    else ch.handlePktOn tstPkt poll.alloc

/-- Where the copy stays inside, these are the functions of the receiver. -/
theorem doHwRxOn_of_ok {ch : MailboxChannel} {tstPkt : MailboxPkt} {poll : RxPoll} {hw : Received}
    (received : ch.doHwRx tstPkt poll = .ok hw) : ch.doHwRxOn tstPkt poll = .ok hw := by
  rw [doHwRx] at received
  rw [doHwRxOn]
  split_ifs at received ⊢
  · exact received
  · obtain ⟨⟨ch', rateOk⟩, taken, rest⟩ := ok_of_bind_ok received
    rw [taken, ok_bind]
    dsimp only at rest ⊢
    split_ifs at rest ⊢
    · exact rest
    · simp only [handlePkt] at rest
      simp only [handlePktOn]
      split_ifs at rest ⊢
      · obtain ⟨result, copied, rest⟩ := ok_of_bind_ok rest
        rw [chanPkt2MsgOn, copied]
        exact rest
      · exact rest

end MailboxChannel

/-- The receiver. Beside it: the payload bytes that have been copied into the message in progress,
and of the packets alone, those that came since the last start packet and the size that it
announced. -/
structure CountedRx where
  rx : RxState
  copied : Nat
  sent : Nat
  size : Nat

/-- The copy was made. -/
def accepted : Except Fault (MailboxChannel × Int) → Bool
  | .ok (_, err) => err = 0
  | .error _ => false

instance (poll : RxPoll) : Decidable poll.delivers :=
  inferInstanceAs (Decidable (_ ∧ _ ∧ _ ∧ _))

/-- The channel with the packet of a poll, after the `switch` of `do_hw_rx`. -/
def prepared (ch : MailboxChannel) (tstPkt : MailboxPkt) (poll : RxPoll) : MailboxChannel :=
  ({ ch with packet := poll.frame.toPkt }.prepareRx tstPkt poll.alloc).1

/-- A start packet begins to count anew. -/
def countBefore (pkt : MailboxPkt) (copied : Nat) : Nat :=
  if pkt.kind = some .msgStart then 0 else copied

def countAfter (ch : MailboxChannel) (tstPkt : MailboxPkt) (poll : RxPoll) (copied : Nat) : Nat :=
  if poll.delivers then
    countBefore poll.frame.toPkt copied
      + if accepted (prepared ch tstPkt poll).chanPkt2MsgOn then poll.frame.toPkt.payloadSize else 0
  else copied

def sentAfter (poll : RxPoll) (sent : Nat) : Nat :=
  if poll.delivers then
    match poll.frame.toPkt.kind with
    | some .msgStart => poll.frame.toPkt.payloadSize
    | some .msgBody => sent + poll.frame.toPkt.payloadSize
    | _ => sent
  else sent

def sizeAfter (poll : RxPoll) (size : Nat) : Nat :=
  if poll.delivers ∧ poll.frame.toPkt.kind = some .msgStart then poll.frame.toPkt.msgSize else size

def countedStep (s : CountedRx) : RxEvent → Option CountedRx
  | .receive swAlloc (some poll) =>
    match s.rx.ch.doSwRx swAlloc with
    | .error _ => none
    | .ok (ch, _, _) =>
      match ch.doHwRxOn s.rx.tstPkt poll with
      | .error _ => none
      | .ok hw => some ⟨⟨hw.ch, hw.tstPkt⟩, countAfter ch s.rx.tstPkt poll s.copied,
          sentAfter poll s.sent, sizeAfter poll s.size⟩
  | e => (rxEvent s.rx e).map fun rx => { s with rx := rx }

def countedInit : CountedRx := ⟨rxInit, 0, 0, 0⟩

/-- A message that `do_hw_rx` finishes with error code 0 has got as many bytes as it is long. -/
def WholeMessages (s : CountedRx) : RxEvent → Prop
  | .receive swAlloc (some poll) =>
    ∀ ch done recvd hw, s.rx.ch.doSwRx swAlloc = .ok (ch, done, recvd) →
      ch.doHwRxOn s.rx.tstPkt poll = .ok hw →
      ∀ m ∈ hw.done, m.error = 0 → countAfter ch s.rx.tstPkt poll s.copied = m.len
  | _ => True

/-- The packet can be the last one of a message: it has the end mark and starts a message or goes on
with one. -/
def Ending (ch : MailboxChannel) (pkt : MailboxPkt) : Prop :=
  pkt.eom = true ∧ (pkt.kind = some .msgStart ∨ pkt.kind = some .msgBody ∧ ch.curMsg ≠ none)

/-- Such a packet completes the payload that the last start packet has announced. -/
def EndMarks (s : CountedRx) : RxEvent → Prop
  | .receive _ (some poll) => poll.delivers → Ending s.rx.ch poll.frame.toPkt →
      sentAfter poll s.sent = sizeAfter poll s.size
  | _ => True

/-! ## One packet -/

/-- What has come for the message in progress has been copied, and its length is the one that was
announced. -/
def CountsCopied (ch : MailboxChannel) (copied sent size : Nat) : Prop :=
  ∀ m, ch.curMsg = some m → copied = sent ∧ m.len = size

section OnePacket

variable {ch ch' : MailboxChannel} {m : MailboxMsg} {alloc : Option Nat} {hw : Received}

theorem mem_chanMsgDone {err : Int} (done : m ∈ (ch.chanMsgDone err).2) :
    m.error = err ∧ ∃ m', ch.curMsg = some m' ∧ m.len = m'.len := by
  rw [MailboxChannel.chanMsgDone] at done
  split at done
  · cases done
  next m' current =>
    rw [List.mem_singleton.mp done]
    exact ⟨rfl, m', current, rfl⟩

theorem chanMsgDone_fst (err : Int) :
    (ch.chanMsgDone err).1.curMsg = none ∧ (ch.chanMsgDone err).1.packet = ch.packet := by
  rw [MailboxChannel.chanMsgDone]
  split
  next free => exact ⟨free, rfl⟩
  · exact ⟨rfl, rfl⟩

theorem dequeueRxMsg_spec (flags : BitVec 32) (id : BitVec 64) (sz : Nat) (alloc : Option Nat) :
    (ch.dequeueRxMsg flags id sz alloc).1.packet = ch.packet
      ∧ ∀ m ∈ (ch.dequeueRxMsg flags id sz alloc).2, m.error = -EMSGSIZE := by
  have none (m : MailboxMsg) (mem : m ∈ []) : m.error = -EMSGSIZE := absurd mem List.not_mem_nil
  simp only [MailboxChannel.dequeueRxMsg]
  split
  · exact ⟨rfl, none⟩
  split
  · -- only a response can be too long for the message that waits for it
    split
    · exact ⟨rfl, none⟩
    · split
      · exact ⟨(chanMsgDone_fst _).2, fun m done => (mem_chanMsgDone done).1⟩
      · exact ⟨rfl, none⟩
  split
  · split
    · exact ⟨rfl, none⟩
    · split <;> exact ⟨rfl, none⟩
  · exact ⟨rfl, none⟩

/-- The messages that the `switch` finishes have failed. -/
theorem prepareRx_error {tstPkt : MailboxPkt}
    (done : m ∈ (ch.prepareRx tstPkt alloc).2.2) : m.error ≠ 0 := by
  rw [MailboxChannel.prepareRx] at done
  split at done
  · cases done
  · rcases List.mem_append.mp done with unfinished | refused
    · rw [(mem_chanMsgDone unfinished).1]
      decide
    · rw [(dequeueRxMsg_spec ..).2 m refused]
      decide
  · cases done
  · cases done

theorem chanPkt2Msg_eq (ch : MailboxChannel) : ch.chanPkt2Msg = .error .bug
    ∨ ∃ msg off, ch.curMsg = some msg ∧ ch.chanPkt2Msg = ch.copyPkt2Msg (msg.announced ch.packet) off
      ∧ (msg.announced ch.packet).len
        = if ch.packet.kind = some .msgStart then ch.packet.msgSize else msg.len := by
  rw [MailboxChannel.chanPkt2Msg]
  split
  next msg current kind =>
    split
    next enough =>
      have same : msg.announced ch.packet = { msg with
          reqId := ch.packet.msgReqId, len := ch.packet.msgSize, fits := enough.trans msg.fits } :=
        dif_pos ⟨kind, enough⟩
      rw [← same]
      exact .inr ⟨msg, _, current, rfl, by rw [same]⟩
    · exact .inl rfl
  next msg current kind =>
    have same : msg.announced ch.packet = msg := dif_neg (by simp [kind])
    exact .inr ⟨msg, _, current, by rw [same], by simp [same, kind]⟩
  · exact .inl rfl

theorem copyPkt2Msg_len {msg : MailboxMsg} {off : Nat}
    (copied : ch.copyPkt2Msg msg off = .ok (ch', 0)) : ∃ m, ch'.curMsg = some m ∧ m.len = msg.len := by
  rw [MailboxChannel.copyPkt2Msg] at copied
  split_ifs at copied
  · cases copied
  · obtain ⟨m, moved, rest⟩ := ok_of_bind_ok copied
    cases rest
    refine ⟨m, rfl, ?_⟩
    rw [memcpyPkt2Msg] at moved
    split_ifs at moved <;> cases moved <;> rfl

/-- The message that takes a packet has the length that was announced for it. -/
theorem chanPkt2MsgOn_len (copied : ch.chanPkt2MsgOn = .ok (ch', 0)) :
    ∃ msg m, ch.curMsg = some msg ∧ ch'.curMsg = some m
      ∧ m.len = if ch.packet.kind = some .msgStart then ch.packet.msgSize else msg.len := by
  rw [MailboxChannel.chanPkt2MsgOn] at copied
  rcases chanPkt2Msg_eq ch with bug | ⟨msg, off, current, same, len⟩
  · rw [bug] at copied
    cases copied
  · split at copied
    next result ok =>
      cases copied
      obtain ⟨m, now, kept⟩ := copyPkt2Msg_len (same.symm.trans ok)
      exact ⟨msg, m, current, now, kept.trans len⟩
    · cases copied
    · cases copied
      exact ⟨msg, _, current, by simp [MailboxChannel.resetPkt, current], len⟩

/-- The `switch` drops the packet, and with it may drop the message in progress, or it keeps the packet
for a message. -/
theorem prepareRx_kept (pkt tstPkt : MailboxPkt) (alloc : Option Nat) :
    let next := ({ ch with packet := pkt }.prepareRx tstPkt alloc).1
    (next.packet.valid = false ∧ (next.curMsg = none ∨ next.curMsg = ch.curMsg
        ∧ pkt.kind ≠ some .msgStart ∧ pkt.kind ≠ some .msgBody))
      ∨ next.packet = pkt ∧ (pkt.kind = some .msgStart
        ∨ pkt.kind = some .msgBody ∧ next.curMsg = ch.curMsg) := by
  have dropped := reset_valid pkt
  simp only [MailboxChannel.prepareRx]
  split
  next kind => exact .inl ⟨dropped, .inr ⟨rfl, by simp [kind], by simp [kind]⟩⟩
  next kind =>
    split
    next free => exact .inl ⟨reset_valid _, .inl (Option.isNone_iff_eq_none.mp free)⟩
    · exact .inr ⟨(dequeueRxMsg_spec ..).1.trans (chanMsgDone_fst _).2, .inl kind⟩
  next kind =>
    split
    next free => exact .inl ⟨dropped, .inl (Option.isNone_iff_eq_none.mp free)⟩
    · exact .inr ⟨rfl, .inr ⟨kind, rfl⟩⟩
  next notTest notStart notBody => exact .inl ⟨dropped, .inr ⟨rfl, notStart, notBody⟩⟩

variable {tstPkt : MailboxPkt} {poll : RxPoll} {copied sent size : Nat}

theorem chanRecvPkt_eq {rateOk : Bool} (taken : ch.chanRecvPkt poll = .ok (ch', rateOk)) :
    ch' = { ch with
      packet := if poll.error &&& statusEmpty != 0 then poll.frame.toPkt.reset
        else poll.frame.toPkt } ∧ rateOk = poll.rateOk := by
  rw [MailboxChannel.chanRecvPkt] at taken
  by_cases valid : ch.packet.valid = true
  · rw [if_pos valid] at taken
    cases taken
  · rw [if_neg valid] at taken
    cases taken
    exact ⟨rfl, rfl⟩

theorem handlePktOn_reset (pkt tstPkt : MailboxPkt) (alloc : Option Nat) :
    { ch with packet := pkt.reset }.handlePktOn tstPkt alloc =
      .ok ⟨{ ch with packet := pkt.reset.reset }, tstPkt, [], false⟩ := by
  simp [MailboxChannel.handlePktOn, MailboxChannel.prepareRx, reset_kind, MailboxChannel.resetPkt,
    reset_valid]

/-- A poll that delivers no packet leaves the message in progress alone. -/
theorem doHwRxOn_idle (nothing : ¬ poll.delivers)
    (received : ch.doHwRxOn tstPkt poll = .ok hw) : hw.done = [] ∧ hw.ch.curMsg = ch.curMsg := by
  rw [MailboxChannel.doHwRxOn] at received
  by_cases absent : poll.status = BitVec.allOnes 32 ∨ poll.status &&& statusRta = 0
  · rw [if_pos absent] at received
    cases received
    exact ⟨rfl, rfl⟩
  · obtain ⟨present, readable⟩ := not_or.mp absent
    rw [if_neg absent] at received
    obtain ⟨⟨ch', rateOk⟩, taken, rest⟩ := ok_of_bind_ok received
    obtain ⟨rfl, rfl⟩ := chanRecvPkt_eq taken
    cases rate : poll.rateOk with
    | false =>
      rw [rate] at rest
      cases rest
      exact ⟨rfl, rfl⟩
    | true =>
      -- a packet that could not be read whole is reset, and nothing is done with it
      have incomplete : (poll.error &&& statusEmpty != 0) = true := by
        by_contra complete
        exact nothing ⟨present, readable, by simpa using complete, rate⟩
      simp only [rate, incomplete, if_true, Bool.not_true, Bool.false_eq_true, if_false,
        handlePktOn_reset] at rest
      cases rest
      exact ⟨rfl, rfl⟩

theorem handlePktOn_cases (received : ch.handlePktOn tstPkt alloc = .ok hw) :
    ((ch.prepareRx tstPkt alloc).1.packet.valid = false
        ∧ hw.ch = (ch.prepareRx tstPkt alloc).1 ∧ hw.done = (ch.prepareRx tstPkt alloc).2.2)
      ∨ ∃ ch' err, (ch.prepareRx tstPkt alloc).1.packet.valid = true
        ∧ (ch.prepareRx tstPkt alloc).1.chanPkt2MsgOn = .ok (ch', err)
        ∧ if err ≠ 0 ∨ ch.packet.eom = true then
            hw.ch = (ch'.chanMsgDone err).1
              ∧ hw.done = (ch.prepareRx tstPkt alloc).2.2 ++ (ch'.chanMsgDone err).2
          else hw.ch = ch' ∧ hw.done = (ch.prepareRx tstPkt alloc).2.2 := by
  simp only [MailboxChannel.handlePktOn] at received
  split at received
  next valid =>
    obtain ⟨⟨ch', err⟩, copied, rest⟩ := ok_of_bind_ok received
    refine .inr ⟨ch', err, valid, copied, ?_⟩
    split at rest
    next finished =>
      cases rest
      rw [if_pos finished]
      exact ⟨rfl, rfl⟩
    next goesOn =>
      cases rest
      rw [if_neg goesOn]
      exact ⟨rfl, rfl⟩
  next invalid =>
    cases received
    exact .inl ⟨by simpa using invalid, rfl, rfl⟩

/-- The software channel leaves the message in progress alone, or none is in progress. -/
theorem doSwRx_current {done : List MailboxMsg} {recvd : Bool}
    (served : ch.doSwRx alloc = .ok (ch', done, recvd)) :
    ch' = ch ∨ ch'.curMsg = none := by
  simp only [MailboxChannel.doSwRx] at served
  split at served
  · cases served
    exact .inl rfl
  split at served
  · cases served
    exact .inl rfl
  split at served
  next free =>
    cases served
    exact .inr free
  · split at served
    · cases served
      exact .inr rfl
    · cases served

theorem doHwRxOn_delivers (delivers : poll.delivers) (received : ch.doHwRxOn tstPkt poll = .ok hw) :
    { ch with packet := poll.frame.toPkt }.handlePktOn tstPkt poll.alloc = .ok hw := by
  obtain ⟨present, readable, complete, rateOk⟩ := delivers
  rw [MailboxChannel.doHwRxOn, if_neg (not_or.mpr ⟨present, readable⟩)] at received
  obtain ⟨⟨ch', rate⟩, taken, rest⟩ := ok_of_bind_ok received
  obtain ⟨rfl, rfl⟩ := chanRecvPkt_eq taken
  simpa [complete, rateOk] using rest

theorem chanPkt2MsgOn_invalid (invalid : ch.packet.valid = false) :
    accepted ch.chanPkt2MsgOn = false := by
  rw [MailboxChannel.chanPkt2MsgOn, MailboxChannel.chanPkt2Msg, kind_of_invalid invalid]
  split <;> simp_all [accepted]

section

variable (counts : CountsCopied ch copied sent size)
include counts

/-- A packet that the `switch` drops is counted for no message. -/
theorem prepared_drops (delivers : poll.delivers)
    (invalid : (prepared ch tstPkt poll).packet.valid = false) :
    CountsCopied (prepared ch tstPkt poll) (countAfter ch tstPkt poll copied) (sentAfter poll sent)
      (sizeAfter poll size) := by
  intro m current
  rcases prepareRx_kept poll.frame.toPkt tstPkt poll.alloc with
    ⟨-, free | ⟨same, notStart, notBody⟩⟩ | ⟨packet, kind⟩
  · cases free.symm.trans current
  · simpa [countAfter, sentAfter, sizeAfter, countBefore, delivers, chanPkt2MsgOn_invalid invalid,
      notStart, notBody] using counts m (same.symm.trans current)
  · have kept : (prepared ch tstPkt poll).packet = poll.frame.toPkt := packet
    rw [kept] at invalid
    rcases kind with start | ⟨body, -⟩
    · cases invalid.symm.trans (valid_of_kind start nofun)
    · cases invalid.symm.trans (valid_of_kind body nofun)

/-- A packet that is copied into a message is counted for it. -/
theorem prepared_accepts
    (delivers : poll.delivers) (valid : (prepared ch tstPkt poll).packet.valid = true)
    (made : (prepared ch tstPkt poll).chanPkt2MsgOn = .ok (ch', 0)) :
    CountsCopied ch' (countAfter ch tstPkt poll copied) (sentAfter poll sent) (sizeAfter poll size)
      ∧ (poll.frame.toPkt.kind = some .msgStart
        ∨ poll.frame.toPkt.kind = some .msgBody ∧ ch.curMsg ≠ none) := by
  obtain ⟨msg, m, current, now, len⟩ := chanPkt2MsgOn_len made
  rcases prepareRx_kept poll.frame.toPkt tstPkt poll.alloc with
    ⟨invalid, -⟩ | ⟨packet, start | ⟨body, same⟩⟩
  · cases invalid.symm.trans valid
  · refine ⟨fun m' now' => ?_, .inl start⟩
    cases now.symm.trans now'
    have kept : (prepared ch tstPkt poll).packet = poll.frame.toPkt := packet
    rw [kept, if_pos start] at len
    simpa [countAfter, sentAfter, sizeAfter, countBefore, delivers, start, made, accepted] using len
  · have before := same.symm.trans current
    refine ⟨fun m' now' => ?_, .inr ⟨body, by simp [before]⟩⟩
    cases now.symm.trans now'
    have kept : (prepared ch tstPkt poll).packet = poll.frame.toPkt := packet
    obtain ⟨all, announced⟩ := counts msg before
    simp only [kept, body, Option.some.injEq, reduceCtorEq, if_false] at len
    simp [countAfter, sentAfter, sizeAfter, countBefore, delivers, body, made, accepted, all, len,
      announced]

/-- A poll keeps the counts, and a message that it finishes with success has got what was sent since
the start packet, and the length that this announced. -/
theorem doHwRxOn_counts (received : ch.doHwRxOn tstPkt poll = .ok hw) :
    CountsCopied hw.ch (countAfter ch tstPkt poll copied) (sentAfter poll sent) (sizeAfter poll size)
      ∧ ∀ m ∈ hw.done, m.error = 0 → poll.delivers ∧ Ending ch poll.frame.toPkt
        ∧ countAfter ch tstPkt poll copied = sentAfter poll sent ∧ m.len = sizeAfter poll size := by
  by_cases delivers : poll.delivers
  case neg =>
    obtain ⟨none, same⟩ := doHwRxOn_idle delivers received
    simp only [countAfter, sentAfter, sizeAfter, delivers, if_false, false_and]
    exact ⟨fun m current => counts m (same.symm.trans current), by simp [none]⟩
  have failed {m : MailboxMsg} :=
    @prepareRx_error { ch with packet := poll.frame.toPkt } m poll.alloc tstPkt
  rcases handlePktOn_cases (doHwRxOn_delivers delivers received) with
    ⟨invalid, same, done⟩ | ⟨ch', err, valid, made, rest⟩
  · rw [same, done]
    exact ⟨prepared_drops counts delivers invalid, fun m mem zero => absurd zero (failed mem)⟩
  · by_cases zero : err = 0
    · subst zero
      obtain ⟨counts', kind⟩ := prepared_accepts counts delivers valid made
      split_ifs at rest with ended
      · obtain ⟨same, done⟩ := rest
        rw [same, done]
        refine ⟨fun m current => ?_, fun m mem zero => ?_⟩
        · cases (chanMsgDone_fst 0).1.symm.trans current
        · rcases List.mem_append.mp mem with early | finished
          · exact absurd zero (failed early)
          · obtain ⟨-, m', current, len⟩ := mem_chanMsgDone finished
            obtain ⟨all, announced⟩ := counts' m' current
            have eom : poll.frame.toPkt.eom = true := by simpa using ended
            exact ⟨delivers, ⟨eom, kind⟩, all, len.trans announced⟩
      · rw [rest.1, rest.2]
        exact ⟨counts', fun m mem zero => absurd zero (failed mem)⟩
    · rw [if_pos (.inl zero)] at rest
      rw [rest.1, rest.2]
      refine ⟨fun m current => ?_, fun m mem none => ?_⟩
      · cases (chanMsgDone_fst err).1.symm.trans current
      · rcases List.mem_append.mp mem with early | finished
        · exact absurd none (failed early)
        · exact absurd ((mem_chanMsgDone finished).1.symm.trans none) zero

end

theorem doSwRx_counts {done : List MailboxMsg} {recvd : Bool}
    (counts : CountsCopied ch copied sent size)
    (served : ch.doSwRx alloc = .ok (ch', done, recvd)) : CountsCopied ch' copied sent size := by
  rcases doSwRx_current served with rfl | free
  · exact counts
  · intro m current
    cases free.symm.trans current

theorem timeoutMsg_counts (counts : CountsCopied ch copied sent size) :
    CountsCopied ch.timeoutMsg.1 copied sent size := by
  intro m current
  change ch.timeoutCur.1.curMsg = some m at current
  rw [MailboxChannel.timeoutCur] at current
  split at current
  next free => cases free.symm.trans current
  next msg before =>
    split_ifs at current
    · cases (chanMsgDone_fst (-ETIME)).1.symm.trans current
    · cases current
      exact counts msg before

end OnePacket

/-! ## Every sequence of events -/

def CountedRx.Inv (s : CountedRx) : Prop := CountsCopied s.rx.ch s.copied s.sent s.size

theorem countedInit_inv : countedInit.Inv := by
  intro m current
  cases current

theorem countedStep_inv (s : CountedRx) (e : RxEvent) (t : CountedRx) (inv : s.Inv)
    (moved : countedStep s e = some t) : t.Inv := by
  cases e with
  | receive swAlloc poll =>
    cases poll with
    | none =>
      simp only [countedStep, rxEvent, MailboxChannel.chanDoRx] at moved
      cases served : s.rx.ch.doSwRx swAlloc with
      | error fault => simp [served, bind, Except.bind] at moved
      | ok result =>
        simp only [served, ok_bind, Option.map_some, Option.some.injEq] at moved
        rw [← moved]
        exact doSwRx_counts inv served
    | some poll =>
      simp only [countedStep] at moved
      split at moved
      · cases moved
      next served =>
        split at moved
        · cases moved
        next received =>
          cases moved
          exact (doHwRxOn_counts (doSwRx_counts inv served) received).1
  | write id flags payload vmallocOk =>
    cases moved
    simp only [CountedRx.Inv, MailboxChannel.mailboxWrite]
    split_ifs <;> exact inv
  | enqueue msg =>
    cases moved
    simp only [CountedRx.Inv, MailboxChannel.chanMsgEnqueue]
    split_ifs <;> exact inv
  | dequeue reqId =>
    cases moved
    exact inv
  | tick =>
    cases moved
    exact timeoutMsg_counts inv

theorem CountedRx.Inv.whole {s : CountedRx} {e : RxEvent} (inv : s.Inv) (ends : EndMarks s e) :
    WholeMessages s e := by
  cases e with
  | receive swAlloc poll =>
    cases poll with
    | none => trivial
    | some poll =>
      intro ch done recvd hw served received m mem success
      obtain ⟨delivers, ⟨eom, kind⟩, all, len⟩ :=
        (doHwRxOn_counts (doSwRx_counts inv served) received).2 m mem success
      have ending : Ending s.rx.ch poll.frame.toPkt := by
        rcases doSwRx_current served with rfl | free
        · exact ⟨eom, kind⟩
        · exact ⟨eom, kind.imp_right fun body => absurd free body.2⟩
      rw [all, len, ends delivers ending]
  | write | enqueue | dequeue | tick => trivial

/-- A poll that takes a packet of a request of `size` bytes, with `payload` of them. -/
def requestPoll (isStart isEom : Bool) (payload size : Nat) : RxPoll :=
  let pkt := ((((zeroPkt.setType (MailboxChannel.typeWord isStart isEom)).setPayloadSize
    payload).setMsgReqId 5).setMsgSize size).setMsgFlags xclMbReqFlagRequest
  ⟨statusRta, pkt.toFrame, 0, true, some 1⟩

end Xrt.Mailbox
