import Xrt.Mailbox.Fragment

/-!
# How packets become a message again

The receiving worker takes the fragments of a message in order. It puts a response into
the message that waits for it and a request into a new one; either way exactly one message
is finished, with the id and the bytes that were sent.
-/
namespace Xrt.Mailbox

open Lib

/-- The receiving worker together with the messages it has finished so far. -/
structure RxTrace where
  ch : MailboxChannel
  tstPkt : MailboxPkt
  done : List MailboxMsg
  deriving DecidableEq, Repr

def rxStep (s : RxTrace) (poll : RxPoll) : Option RxTrace :=
  match s.ch.doHwRx s.tstPkt poll with
  | .error _ => none
  | .ok received => some ⟨received.ch, received.tstPkt, s.done ++ received.done⟩

/-- The channel when `n` bytes of its current message `m` are done and it waits for the
next packet. -/
def MailboxChannel.advanced (ch : MailboxChannel) (m : MailboxMsg) (n : Nat) : MailboxChannel :=
  { ch with curMsg := some m, bytesDone := n }.resetPkt

/-- `m` is the message `w` into which the first `n` bytes of `c` have been received. -/
structure Holds (c : Content) (w : MailboxMsg) (n : Nat) (m : MailboxMsg) : Prop where
  ptr : m.ptr = w.ptr
  cb : m.cb = w.cb
  flags : m.flags = w.flags
  reqId : m.reqId = c.reqId
  len : m.len = c.bytes.length
  data : m.data = patch w.data 0 (c.bytes.take n)

section Receiver

variable {c : Content} {w : MailboxMsg} {n : Nat} {ch : MailboxChannel}

variable {m : MailboxMsg} {alloc : Option Nat} {tstPkt : MailboxPkt}

theorem copyPkt2Msg_fragment (small : c.bytes.length < 2 ^ 31)
    (room : c.bytes.length ≤ w.data.length) (holds : Holds c w n m)
    (position : ch.bytesDone = n) (rest : n ≤ c.bytes.length)
    (fragment : Fragment c n ch.packet) :
    ∃ m', ch.copyPkt2Msg m (payloadOff n) =
        .ok (ch.advanced m' (n + payloadCnt c.bytes.length n), 0) ∧
      Holds c w (n + payloadCnt c.bytes.length n) m' := by
  have within := payloadCnt_within rest
  have fitsPkt := payloadOff_payloadCnt c.bytes.length n
  have prefixed : (c.bytes.take n).length = n := List.length_take_of_le rest
  have length : m.data.length = w.data.length := by
    rw [holds.data, length_patch (by omega)]
  have payloadLength : (slice c.bytes n (payloadCnt c.bytes.length n)).length =
      payloadCnt c.bytes.length n := length_slice within
  have inside : n + (slice c.bytes n (payloadCnt c.bytes.length n)).length ≤ m.data.length := by
    omega
  -- neither the `size_t` nor the `int` of the source wraps around in a message of this size
  have remaining : sizeT ((c.bytes.length : Int) - (n : Int)) = c.bytes.length - n := by
    rw [sizeT_of_bounds] <;> omega
  have advance : toInt32 ((n : Int) + (payloadCnt c.bytes.length n : Int)) =
      (n + payloadCnt c.bytes.length n : Nat) := by
    rw [toInt32_of_bounds] <;> omega
  have copied : memcpyPkt2Msg m n ch.packet (payloadOff n) (payloadCnt c.bytes.length n) =
      .ok (m.write n (slice c.bytes n (payloadCnt c.bytes.length n)) inside) := by
    by_cases nothing : payloadCnt c.bytes.length n = 0
    · -- an empty message is one packet without payload
      simp [memcpyPkt2Msg, nothing, slice, MailboxMsg.write, patch]
    · simp only [memcpyPkt2Msg, fragment.payload, if_neg nothing,
        if_neg (Nat.not_lt.mpr fitsPkt)]
      rw [dif_pos ⟨Int.natCast_nonneg n, inside⟩]
      rfl
  refine ⟨m.write n (slice c.bytes n (payloadCnt c.bytes.length n)) inside, ?_, ?_⟩
  · simp only [MailboxChannel.copyPkt2Msg, fragment.size, holds.len, position, remaining]
    rw [if_neg (Nat.not_lt.mpr (payloadCnt_le _ _)), copied]
    simp only [bind, Except.bind, advance, MailboxChannel.advanced]
  · constructor
    · exact holds.ptr
    · exact holds.cb
    · exact holds.flags
    · exact holds.reqId
    · exact holds.len
    · -- the bytes so far and the new ones are again a beginning of `c`
      have joined := patch_patch (c.bytes.take n)
        (slice c.bytes n (payloadCnt c.bytes.length n)) (Nat.zero_le w.data.length)
      rw [prefixed, Nat.zero_add, take_append_slice] at joined
      simp only [MailboxMsg.write, holds.data]
      exact joined

theorem chanPkt2Msg_fragment (small : c.bytes.length < 2 ^ 31)
    (room : c.bytes.length ≤ w.len) (current : ch.curMsg = some m)
    (first : n = 0 → m = w) (later : n ≠ 0 → Holds c w n m)
    (position : ch.bytesDone = n) (rest : n ≤ c.bytes.length)
    (fragment : Fragment c n ch.packet) :
    ∃ m', ch.chanPkt2Msg = .ok (ch.advanced m' (n + payloadCnt c.bytes.length n), 0) ∧
      Holds c w (n + payloadCnt c.bytes.length n) m' := by
  have dataRoom := room.trans w.fits
  by_cases start : n = 0
  · subst start
    obtain rfl := first rfl
    obtain ⟨reqId, flags, size⟩ := fragment.first rfl
    have enough : ch.packet.msgSize ≤ m.len := size.trans_le room
    have holds : Holds c m 0
        { m with reqId := ch.packet.msgReqId, len := ch.packet.msgSize,
                 fits := enough.trans m.fits } := by
      constructor
      · rfl
      · rfl
      · rfl
      · exact reqId
      · exact size
      · simp [patch]
    have kind : ch.packet.kind = some .msgStart := fragment.kind
    have off : payloadOff 0 = msgStartPayload := if_pos rfl
    simp only [MailboxChannel.chanPkt2Msg, current, kind, dif_pos enough]
    rw [← off]
    exact copyPkt2Msg_fragment small dataRoom holds position rest fragment
  · have kind : ch.packet.kind = some .msgBody := by rw [fragment.kind, if_neg start]
    have off : payloadOff n = msgBodyPayload := if_neg start
    simp only [MailboxChannel.chanPkt2Msg, current, kind]
    rw [← off]
    exact copyPkt2Msg_fragment small dataRoom (later start) position rest fragment

theorem handlePkt_fragment {prepared : MailboxChannel}
    (small : c.bytes.length < 2 ^ 31) (room : c.bytes.length ≤ w.len)
    (prepares : ch.prepareRx tstPkt alloc = (prepared, tstPkt, []))
    (same : prepared.packet = ch.packet) (current : prepared.curMsg = some m)
    (first : n = 0 → m = w) (later : n ≠ 0 → Holds c w n m)
    (position : prepared.bytesDone = n) (rest : n ≤ c.bytes.length)
    (fragment : Fragment c n ch.packet) :
    ∃ m', Holds c w (n + payloadCnt c.bytes.length n) m' ∧
      ch.handlePkt tstPkt alloc = .ok
        (if n + payloadCnt c.bytes.length n = c.bytes.length then
          ⟨{ prepared with curMsg := none, bytesDone := 0 }.resetPkt, tstPkt,
            [{ m' with error := 0 }], true⟩
        else ⟨prepared.advanced m' (n + payloadCnt c.bytes.length n), tstPkt, [], true⟩) := by
  have fragment' : Fragment c n prepared.packet := same ▸ fragment
  obtain ⟨m', copied, holds⟩ :=
    chanPkt2Msg_fragment small room current first later position rest fragment'
  refine ⟨m', holds, ?_⟩
  simp only [MailboxChannel.handlePkt, prepares, fragment'.valid, fragment.eom, if_true, copied,
    bind, Except.bind]
  by_cases last : n + payloadCnt c.bytes.length n = c.bytes.length
  · simp [last, MailboxChannel.chanMsgDone, MailboxChannel.advanced, MailboxChannel.resetPkt]
  · simp [last]

/-- The receiver is between two messages. -/
structure Idle (ch : MailboxChannel) : Prop where
  current : ch.curMsg = none
  position : ch.bytesDone = 0
  packet : ch.packet.valid = false

/-- The receiver waits for the packet that carries the bytes of `c` from `n` on. -/
structure Receiving (c : Content) (w : MailboxMsg) (n : Nat) (ch : MailboxChannel)
    (m : MailboxMsg) : Prop where
  current : ch.curMsg = some m
  position : ch.bytesDone = n
  packet : ch.packet.valid = false
  holds : Holds c w n m

theorem rxStep_fragment {prepared : MailboxChannel} {s : RxTrace}
    {poll : RxPoll} (small : c.bytes.length < 2 ^ 31) (room : c.bytes.length ≤ w.len)
    (delivers : poll.delivers) (empty : s.ch.packet.valid = false)
    (prepares : { s.ch with packet := poll.frame.toPkt }.prepareRx s.tstPkt poll.alloc =
      (prepared, s.tstPkt, []))
    (same : prepared.packet = poll.frame.toPkt) (current : prepared.curMsg = some m)
    (first : n = 0 → m = w) (later : n ≠ 0 → Holds c w n m)
    (position : prepared.bytesDone = n) (rest : n ≤ c.bytes.length)
    (fragment : Fragment c n poll.frame.toPkt) :
    ∃ t m', rxStep s poll = some t ∧
      (t.ch.msgs = prepared.msgs ∧ t.ch.allocs = prepared.allocs) ∧
      Holds c w (n + payloadCnt c.bytes.length n) m' ∧
      if n + payloadCnt c.bytes.length n = c.bytes.length then
        t.done = s.done ++ [{ m' with error := 0 }] ∧ Idle t.ch
      else
        t.done = s.done ∧ Receiving c w (n + payloadCnt c.bytes.length n) t.ch m' := by
  obtain ⟨m', holds, handled⟩ := handlePkt_fragment small room prepares same current first later
    position rest fragment
  have received := (doHwRx_delivers s.tstPkt delivers empty).trans handled
  by_cases last : n + payloadCnt c.bytes.length n = c.bytes.length
  · rw [if_pos last] at received
    refine ⟨⟨{ prepared with curMsg := none, bytesDone := 0 }.resetPkt, s.tstPkt,
      s.done ++ [{ m' with error := 0 }]⟩, m', ?_, ⟨rfl, rfl⟩, holds, ?_⟩
    · rw [rxStep, received]
    · rw [if_pos last]
      exact ⟨rfl, rfl, rfl, reset_valid prepared.packet⟩
  · rw [if_neg last] at received
    refine ⟨⟨prepared.advanced m' (n + payloadCnt c.bytes.length n), s.tstPkt, s.done⟩, m',
      ?_, ⟨rfl, rfl⟩, holds, ?_⟩
    · simp [rxStep, received]
    · rw [if_neg last]
      exact ⟨rfl, rfl, rfl, reset_valid prepared.packet, holds⟩

theorem prepareRx_body (kind : ch.packet.kind = some .msgBody) (current : ch.curMsg = some m) :
    ch.prepareRx tstPkt alloc = (ch, tstPkt, []) := by
  simp [MailboxChannel.prepareRx, kind, current]

theorem run_fragments {s : RxTrace} (waiting : List MailboxMsg)
    (allocs : List Nat) {pkts : List MailboxPkt} {polls : List RxPoll}
    (small : c.bytes.length < 2 ^ 31) (room : c.bytes.length ≤ w.len)
    (fragments : Fragments c n pkts) (rest : n ≤ c.bytes.length)
    (empty : s.ch.packet.valid = false) (position : s.ch.bytesDone = n)
    (first : n = 0 → m = w) (later : n ≠ 0 → Holds c w n m)
    (feeds : polls.map (fun poll => poll.frame.toPkt) = pkts)
    (delivers : ∀ poll ∈ polls, poll.delivers)
    (prepares : ∀ poll ∈ polls.head?, Fragment c n poll.frame.toPkt →
      { s.ch with packet := poll.frame.toPkt }.prepareRx s.tstPkt poll.alloc =
        ({ s.ch with
            packet := poll.frame.toPkt
            msgs := waiting
            curMsg := some m
            allocs := allocs }, s.tstPkt, [])) :
    ∃ t m', run rxStep s polls = some t ∧ t.ch.msgs = waiting ∧ Idle t.ch ∧
      t.done = s.done ++ [{ m' with error := 0 }] ∧ Holds c w c.bytes.length m' := by
  -- `prepares` speaks of the first poll only; the others find the current message in place
  induction fragments generalizing s m polls with
  | @last n pkt fragment whole =>
    obtain ⟨poll, rfl, rfl⟩ := List.map_eq_singleton_iff.mp feeds
    obtain ⟨t, m', stepped, ⟨msgs, allocs'⟩, holds, outcome⟩ :=
      rxStep_fragment small room (delivers poll (by simp)) empty
        (prepares poll (by simp) fragment) rfl rfl first later position rest fragment
    rw [if_pos whole] at outcome
    rw [whole] at holds
    exact ⟨t, m', by rw [run_cons, stepped]; rfl, msgs, outcome.2, outcome.1, holds⟩
  | @more n pkt pkts fragment short fragments ih =>
    obtain ⟨poll, polls, rfl, rfl, feeds'⟩ := List.map_eq_cons_iff.mp feeds
    obtain ⟨t, m', stepped, ⟨msgs, allocs'⟩, holds, outcome⟩ :=
      rxStep_fragment small room (delivers poll (by simp)) empty
        (prepares poll (by simp) fragment) rfl rfl first later position rest fragment
    rw [if_neg (Nat.ne_of_lt short)] at outcome
    obtain ⟨done, receiving⟩ := outcome
    have kept : t.ch.msgs = waiting := msgs
    have taken : t.ch.allocs = allocs := allocs'
    have unfinished : n < c.bytes.length := (Nat.le_add_right _ _).trans_lt short
    have advanced : n + payloadCnt c.bytes.length n ≠ 0 :=
      Nat.ne_of_gt (Nat.lt_of_lt_of_le (payloadCnt_pos unfinished) (Nat.le_add_left _ _))
    -- from the second packet on the current message is the one to continue
    have continues : ∀ poll ∈ polls.head?,
        Fragment c (n + payloadCnt c.bytes.length n) poll.frame.toPkt →
        { t.ch with packet := poll.frame.toPkt }.prepareRx t.tstPkt poll.alloc =
          ({ t.ch with
              packet := poll.frame.toPkt
              msgs := waiting
              curMsg := some m'
              allocs := allocs }, t.tstPkt, []) := by
      intro poll _ fragment
      have kind : poll.frame.toPkt.kind = some .msgBody := by
        rw [fragment.kind, if_neg advanced]
      refine Eq.trans (prepareRx_body (m := m') ?_ ?_) ?_
      · exact kind
      · exact receiving.current
      · simp only [← kept, ← taken, ← receiving.current]
    obtain ⟨t', m'', ran, msgs', idle, done', complete⟩ := ih short.le receiving.packet
      receiving.position (absurd · advanced) (fun _ => receiving.holds) feeds'
      (fun poll member => delivers poll (List.mem_cons_of_mem _ member)) continues
    refine ⟨t', m'', ?_, msgs', idle, ?_, complete⟩
    · rw [run_cons, stepped]
      exact ran
    · rw [done', done]

theorem prepareRx_request {ptr : Nat} (idle : ch.curMsg = none)
    (small : c.bytes.length < maxMsgSz) (fragment : Fragment c 0 ch.packet)
    (notResponse : c.flags &&& xclMbReqFlagResponse = 0)
    (request : c.flags &&& xclMbReqFlagRequest ≠ 0) :
    ch.prepareRx tstPkt (some ptr) =
      ({ ch with
          curMsg := some { allocMsg ptr (List.replicate c.bytes.length 0) with
            reqId := c.reqId, flags := c.flags }
          allocs := ch.allocs ++ [ptr] }, tstPkt, []) := by
  obtain ⟨reqId, flags, size⟩ := fragment.first rfl
  have kind : ch.packet.kind = some .msgStart := fragment.kind
  have request' : ¬ c.flags &&& xclMbReqFlagRequest = 0#32 := request
  simp [MailboxChannel.prepareRx, kind, MailboxChannel.chanMsgDone, idle,
    MailboxChannel.dequeueRxMsg, reqId, flags, size, notResponse, request', small]

theorem dequeueRxMsg_response {flags : BitVec 32} {id : BitVec 64} {sz : Nat} (alloc : Option Nat)
    (idle : ch.curMsg = none) (response : flags &&& xclMbReqFlagResponse ≠ 0)
    (found : ch.msgs.find? (MailboxChannel.wanted id) = some w) (room : sz ≤ w.len) :
    ch.dequeueRxMsg flags id sz alloc =
      ({ ch with
          msgs := ch.msgs.eraseP (MailboxChannel.wanted id)
          curMsg := some w }, []) := by
  have response' : ¬ flags &&& xclMbReqFlagResponse = 0#32 := response
  simp [MailboxChannel.dequeueRxMsg, idle, response', MailboxChannel.chanMsgDequeue, found,
    Nat.not_lt.mpr room]

theorem prepareRx_response (idle : ch.curMsg = none)
    (fragment : Fragment c 0 ch.packet) (response : c.flags &&& xclMbReqFlagResponse ≠ 0)
    (found : ch.msgs.find? (MailboxChannel.wanted c.reqId) = some w)
    (room : c.bytes.length ≤ w.len) :
    ch.prepareRx tstPkt alloc =
      ({ ch with
          msgs := ch.msgs.eraseP (MailboxChannel.wanted c.reqId)
          curMsg := some w }, tstPkt, []) := by
  obtain ⟨reqId, flags, size⟩ := fragment.first rfl
  have kind : ch.packet.kind = some .msgStart := fragment.kind
  simp [MailboxChannel.prepareRx, kind, MailboxChannel.chanMsgDone, idle, reqId, flags, size,
    dequeueRxMsg_response alloc idle response found room]

theorem Holds.content_eq (holds : Holds c w c.bytes.length m) :
    m.content = { c with flags := w.flags } := by
  have bytes : m.data.take m.len = c.bytes := by
    rw [holds.data, holds.len, List.take_length, patch, List.append_assoc, List.take_zero,
      List.nil_append, List.take_left' rfl]
  simp only [MailboxMsg.content, bytes, holds.reqId, holds.flags]

end Receiver

/-! ## From one side to the other -/

section RoundTrip

variable {msg : MailboxMsg} {s : RxTrace} {frames : List Frame} {polls : List RxPoll}

theorem run_request {ptr : Nat} (small : msg.len < maxMsgSz)
    (idle : Idle s.ch) (fragments : Fragments msg.content 0 (frames.map Frame.toPkt))
    (feeds : polls.map RxPoll.frame = frames) (delivers : ∀ poll ∈ polls, poll.delivers)
    (alloc : ∀ poll ∈ polls, poll.alloc = some ptr)
    (notResponse : msg.flags &&& xclMbReqFlagResponse = 0)
    (request : msg.flags &&& xclMbReqFlagRequest ≠ 0) :
    ∃ t m, run rxStep s polls = some t ∧ Idle t.ch ∧ t.ch.msgs = s.ch.msgs ∧
      t.done = s.done ++ [m] ∧ m.ptr = ptr ∧ m.error = 0 ∧ m.content = msg.content := by
  -- the message that `dequeue_rx_msg` allocates for the request
  let w := { allocMsg ptr (List.replicate msg.content.bytes.length 0) with
    reqId := msg.content.reqId, flags := msg.content.flags }
  have length := length_content msg
  have bound : msg.content.bytes.length < maxMsgSz := by rw [length]; exact small
  have room : msg.content.bytes.length ≤ w.len := by simp [w, allocMsg]
  obtain ⟨t, m, ran, msgs, idle', done, holds⟩ :=
    run_fragments (m := w) s.ch.msgs (s.ch.allocs ++ [ptr]) (bound.trans (by decide)) room fragments
      (Nat.zero_le _) idle.packet idle.position (fun _ => rfl) (absurd rfl ·)
      (by rw [← feeds, List.map_map]; rfl) delivers fun poll member fragment => by
        rw [alloc poll (List.mem_of_mem_head? member)]
        exact prepareRx_request idle.current bound fragment notResponse request
  exact ⟨t, { m with error := 0 }, ran, idle', msgs, done, holds.ptr, rfl, holds.content_eq⟩

theorem run_response {c : Content} {w : MailboxMsg} (small : c.bytes.length < 2 ^ 31)
    (idle : Idle s.ch) (fragments : Fragments c 0 (polls.map fun poll => poll.frame.toPkt))
    (delivers : ∀ poll ∈ polls, poll.delivers) (response : c.flags &&& xclMbReqFlagResponse ≠ 0)
    (found : s.ch.msgs.find? (MailboxChannel.wanted c.reqId) = some w)
    (room : c.bytes.length ≤ w.len) :
    ∃ t m, run rxStep s polls = some t ∧
      t.ch.msgs = s.ch.msgs.eraseP (MailboxChannel.wanted c.reqId) ∧ Idle t.ch ∧
      t.done = s.done ++ [{ m with error := 0 }] ∧ Holds c w c.bytes.length m :=
  run_fragments (m := w) (s.ch.msgs.eraseP (MailboxChannel.wanted c.reqId)) s.ch.allocs
    small room fragments (Nat.zero_le _) idle.packet idle.position (fun _ => rfl) (absurd rfl ·)
    rfl delivers fun poll _ fragment =>
      @prepareRx_response _ _ { s.ch with packet := poll.frame.toPkt } _ _ idle.current fragment
        response found room

/-- The channel stays idle while the packets of a message that is neither a request nor a response
come in: the start packet finds no message to fill, and neither do the others. -/
theorem rxStep_dropped {c : Content} {n : Nat} {poll : RxPoll} (idle : Idle s.ch)
    (delivers : poll.delivers) (fragment : Fragment c n poll.frame.toPkt)
    (notResponse : c.flags &&& xclMbReqFlagResponse = 0)
    (notRequest : c.flags &&& xclMbReqFlagRequest = 0) :
    ∃ t, rxStep s poll = some t ∧ Idle t.ch ∧ t.ch.msgs = s.ch.msgs ∧ t.done = s.done := by
  have received := doHwRx_delivers s.tstPkt delivers idle.packet
  have prepared : { s.ch with packet := poll.frame.toPkt }.prepareRx s.tstPkt poll.alloc
      = ({ s.ch with packet := poll.frame.toPkt }.resetPkt, s.tstPkt, []) := by
    have kind := fragment.kind
    by_cases start : n = 0
    · rw [if_pos start] at kind
      simp [MailboxChannel.prepareRx, kind, MailboxChannel.chanMsgDone, idle.current,
        MailboxChannel.dequeueRxMsg, (fragment.first start).2.1, notResponse, notRequest]
    · rw [if_neg start] at kind
      simp [MailboxChannel.prepareRx, kind, idle.current]
  have reset := reset_valid poll.frame.toPkt
  simp only [MailboxChannel.handlePkt, prepared, MailboxChannel.resetPkt, reset,
    Bool.false_eq_true, if_false] at received
  refine ⟨⟨{ s.ch with packet := poll.frame.toPkt }.resetPkt, s.tstPkt, s.done⟩, ?_,
    ⟨idle.current, idle.position, reset⟩, rfl, rfl⟩
  simp [rxStep, received, MailboxChannel.resetPkt]

theorem run_dropped {c : Content} {n : Nat} {pkts : List MailboxPkt} (idle : Idle s.ch)
    (fragments : Fragments c n pkts) (feeds : polls.map (fun poll => poll.frame.toPkt) = pkts)
    (delivers : ∀ poll ∈ polls, poll.delivers)
    (notResponse : c.flags &&& xclMbReqFlagResponse = 0)
    (notRequest : c.flags &&& xclMbReqFlagRequest = 0) :
    ∃ t, run rxStep s polls = some t ∧ Idle t.ch ∧ t.ch.msgs = s.ch.msgs ∧ t.done = s.done := by
  induction fragments generalizing s polls with
  | last fragment =>
    obtain ⟨poll, rfl, rfl⟩ := List.map_eq_singleton_iff.mp feeds
    obtain ⟨t, stepped, kept⟩ :=
      rxStep_dropped idle (delivers poll (by simp)) fragment notResponse notRequest
    exact ⟨t, by rw [run_cons, stepped]; rfl, kept⟩
  | more fragment _ _ ih =>
    obtain ⟨poll, polls, rfl, rfl, feeds'⟩ := List.map_eq_cons_iff.mp feeds
    obtain ⟨t, stepped, idle', msgs, done⟩ :=
      rxStep_dropped idle (delivers poll (by simp)) fragment notResponse notRequest
    obtain ⟨t', ran, idle'', msgs', done'⟩ :=
      ih idle' feeds' fun poll member => delivers poll (List.mem_cons_of_mem _ member)
    exact ⟨t', by rw [run_cons, stepped]; exact ran, idle'', msgs'.trans msgs, done'.trans done⟩

end RoundTrip

/-- Every message sent through the hardware arrives. The packets that leave, whenever the
hardware has been ready often enough, are one start packet, then body packets, the end mark
on the last. Fed to a receiver between two messages, they finish exactly one message: for a
request a new one with the id, flags and bytes that were sent; for a response the one that
waits for the id, with the id and bytes that were sent and its own flags. A message that is
neither finishes nothing. -/
theorem mailbox_roundTrip {msg : MailboxMsg} (hw : msg.chanSw = false) (nonempty : 0 < msg.len)
    (small : msg.len < maxMsgSz) {tx : TxTrace} {later : List MailboxMsg}
    (queued : tx.ch.msgs = msg :: later) (txIdle : tx.ch.curMsg = none)
    (txStart : tx.ch.bytesDone = 0) (swIdle : tx.ch.swChanMsgId = 0) (unsent : tx.frames = [])
    {schedule : List TxRegs} (enough : schedule.countP TxRegs.ready = packetsLeft msg.len 0)
    (notFull : ∀ regs ∈ schedule, regs.error &&& statusFull = 0) {rx : RxTrace}
    (rxIdle : Idle rx.ch) :
    ∃ sent, run txStep tx schedule = some sent ∧
      (∀ i frame, sent.frames[i]? = some frame →
        frame.toPkt.kind = some (if i = 0 then .msgStart else .msgBody) ∧
          frame.toPkt.eom = decide (i + 1 = sent.frames.length)) ∧
      ∀ polls, polls.map RxPoll.frame = sent.frames → (∀ poll ∈ polls, poll.delivers) →
        (msg.flags &&& xclMbReqFlagResponse = 0 → msg.flags &&& xclMbReqFlagRequest ≠ 0 →
          ∀ ptr, (∀ poll ∈ polls, poll.alloc = some ptr) →
          ∃ r m, run rxStep rx polls = some r ∧ Idle r.ch ∧ r.ch.msgs = rx.ch.msgs ∧
            r.done = rx.done ++ [m] ∧ m.ptr = ptr ∧ m.error = 0 ∧ m.content = msg.content) ∧
        (msg.flags &&& xclMbReqFlagResponse ≠ 0 →
          ∀ w, rx.ch.msgs.find? (MailboxChannel.wanted msg.reqId) = some w → msg.len ≤ w.len →
          ∃ r m, run rxStep rx polls = some r ∧ Idle r.ch ∧
            r.ch.msgs = rx.ch.msgs.eraseP (MailboxChannel.wanted msg.reqId) ∧
            r.done = rx.done ++ [m] ∧ m.ptr = w.ptr ∧ m.error = 0 ∧
            m.content = { msg.content with flags := w.flags }) ∧
        (msg.flags &&& xclMbReqFlagResponse = 0 → msg.flags &&& xclMbReqFlagRequest = 0 →
          ∃ r, run rxStep rx polls = some r ∧ Idle r.ch ∧ r.ch.msgs = rx.ch.msgs ∧
            r.done = rx.done) := by
  have short : msg.len < 2 ^ 31 := small.trans (by decide)
  obtain ⟨sent, frames, ran, written, fragments⟩ :=
    run_queued short hw nonempty queued txIdle txStart swIdle enough notFull
  rw [unsent, List.nil_append] at written
  rw [← written] at fragments
  refine ⟨sent, ran, ?_, ?_⟩
  · intro i frame found
    have shape := fragments.shape (i := i) (by rw [List.getElem?_map, found]; rfl)
    simpa using shape
  · -- what was written is what the polls find, so the receiver sees the same fragments
    intro polls feeds delivers
    refine ⟨?_, ?_, ?_⟩
    · intro notResponse request ptr alloc
      exact run_request small rxIdle fragments feeds delivers alloc notResponse request
    · intro response w found room
      rw [← feeds, List.map_map] at fragments
      rw [← length_content msg] at short room
      obtain ⟨r, m, received, msgs, idle, done, holds⟩ :=
        run_response short rxIdle fragments delivers response found room
      exact ⟨r, { m with error := 0 }, received, idle, msgs, done, holds.ptr, rfl,
        holds.content_eq⟩
    · intro notResponse notRequest
      rw [← feeds, List.map_map] at fragments
      exact run_dropped rxIdle fragments rfl delivers notResponse notRequest

/-- The hardware is ready and takes the packet. -/
def readyRegs : TxRegs := ⟨statusSta, 0⟩

/-- The hardware still holds the last packet. -/
def busyRegs : TxRegs := ⟨0, 0⟩

def deliver (alloc : Option Nat) (frame : Frame) : RxPoll := ⟨statusRta, frame, 0, true, alloc⟩

theorem deliver_delivers (alloc : Option Nat) (frame : Frame) : (deliver alloc frame).delivers :=
  ⟨(by decide : statusRta ≠ BitVec.allOnes 32), (by decide : statusRta &&& statusRta ≠ 0),
    (by decide : (0 : BitVec 32) &&& statusEmpty = 0), rfl⟩

/-- A message of `size` bytes in line, nothing sent yet. -/
def queuedTx (flags : BitVec 32) (size : Nat) : TxTrace :=
  ⟨{ MailboxChannel.init with
      msgs := [{ allocMsg 1 (List.replicate size 7) with reqId := 5, flags := flags }] },
    zeroPkt, [], []⟩

/-- A receiver on which a request with id 5 waits for an answer of up to `size` bytes. -/
def waitingRx (size : Nat) : RxTrace :=
  ⟨{ MailboxChannel.init with
      msgs := [{ allocMsg 2 (List.replicate size 0) with reqId := 5 }] }, zeroPkt, []⟩

/-- A request of two packets between which the hardware is busy for a while. -/
theorem mailbox_roundTrip_two_packets :
    ∃ sent, run txStep (queuedTx 2 50) [busyRegs, readyRegs, busyRegs, readyRegs] = some sent ∧
      ∃ r m, run rxStep (waitingRx 4) (sent.frames.map (deliver (some 9))) = some r ∧
        r.done = [m] ∧ m.ptr = 9 ∧ m.content = ⟨5, 2, List.replicate 50 7⟩ := by
  have queued : (queuedTx 2 50).ch.msgs =
      [{ allocMsg 1 (List.replicate 50 7) with reqId := 5, flags := 2 }] := rfl
  have enough : [busyRegs, readyRegs, busyRegs, readyRegs].countP TxRegs.ready =
      packetsLeft 50 0 := by decide
  have idle : Idle (waitingRx 4).ch := ⟨rfl, rfl, by decide⟩
  obtain ⟨sent, ran, -, arrives⟩ :=
    mailbox_roundTrip (by rfl) (by decide) (by decide) queued rfl rfl rfl rfl enough (by decide)
      idle
  obtain ⟨request, -⟩ := arrives (sent.frames.map (deliver (some 9)))
    (by simp [Function.comp_def, deliver]) (by simp [deliver_delivers])
  obtain ⟨r, m, received, -, -, done, ptr, -, content⟩ :=
    request (by decide) (by decide) 9 (by simp [deliver])
  exact ⟨sent, ran, r, m, received, done, ptr, content.trans (by rfl)⟩

/-- The flags of a response stay behind: it fills the message that waits for it, and that
one was made without flags. A message that is neither a request nor a response gets lost. -/
theorem mailbox_roundTrip_flags_lost :
    (∃ sent r, run txStep (queuedTx 1 3) [readyRegs] = some sent ∧
      run rxStep (waitingRx 4) (sent.frames.map (deliver (some 9))) = some r ∧
      r.done.map MailboxMsg.content = [⟨5, 0, [7, 7, 7]⟩]) ∧
    ∃ sent r, run txStep (queuedTx 4 3) [readyRegs] = some sent ∧
      run rxStep (waitingRx 4) (sent.frames.map (deliver (some 9))) = some r ∧ r.done = [] := by
  refine ⟨⟨_, _, rfl, rfl, ?_⟩, _, _, rfl, rfl, ?_⟩
  · decide
  · decide

end Xrt.Mailbox
