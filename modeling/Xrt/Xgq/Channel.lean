import Xrt.Xgq.Ring
import Xrt.Lib.Run

/-!
# Producer and consumer of one ring

The two sides of a ring as two sequential threads over shared memory. Every read or write
of the shared produced word, of the shared consumed word and of a slot word is one event,
and a run interleaves the events of the two sides freely. A side may take several slots
and fill or read them in any order before it notifies the peer; it notifies only when it
is done with every slot it took.
-/
namespace Xrt.Xgq

open Lib

structure Shared where
  produced : BitVec 32
  consumed : BitVec 32
  mem : BitVec 64 → BitVec 32

/-- A slot handed out by `xgq_produce`, the entry to store there and how many of its words
have been stored. -/
structure WriteTicket where
  slot : BitVec 64
  entry : List (BitVec 32)
  written : Nat

/-- A slot handed out by `xgq_consume` and the words read from it so far. -/
structure ReadTicket where
  slot : BitVec 64
  words : List (BitVec 32)

inductive ProducerPc
  | ready
  /-- Inside `xgq_can_produce`: the ring looked full and the consumed word is read. -/
  | refresh (entry : List (BitVec 32)) (r : Refresh)

inductive ConsumerPc
  | ready
  /-- Inside `xgq_can_consume`: the ring looked empty and the produced word is read. -/
  | refresh (r : Refresh)

/-- The tickets are the history: one for each successful `xgq_produce`, in order. -/
structure Producer where
  ring : XgqRing
  pc : ProducerPc
  tickets : List WriteTicket

structure Consumer where
  ring : XgqRing
  pc : ConsumerPc
  tickets : List ReadTicket

/-- `published` and `released` count the tickets covered by the last notify of each side. -/
structure Channel where
  prod : Producer
  cons : Consumer
  shared : Shared
  published : Nat
  released : Nat

inductive Event
  | produce (entry : List (BitVec 32))
  | readConsumed
  | writeWord (ticket : Nat)
  | notifyPeerProduced
  | consume
  | readProduced
  | readWord (ticket : Nat)
  | notifyPeerConsumed

/-- Both sides start with their counters at the value the shared words hold, as
`xgq_soft_reset` and `xgq_fast_forward` leave them. -/
def initial (L : RingLayout) (base : BitVec 32) (mem : BitVec 64 → BitVec 32) : Channel :=
  let ring := { xgqInitRing L.slotAddr L.slotNum L.slotSz with
    xrProduced := base, xrConsumed := base }
  ⟨⟨ring, .ready, []⟩, ⟨ring, .ready, []⟩, ⟨base, base, mem⟩, 0, 0⟩

def Producer.takeSlot (p : Producer) (entry : List (BitVec 32)) : Producer :=
  let (slot, ring) := xgqProduceSlot p.ring
  ⟨ring, .ready, p.tickets ++ [⟨slot, entry, 0⟩]⟩

def Consumer.takeSlot (c : Consumer) : Consumer :=
  let (slot, ring) := xgqConsumeSlot c.ring
  ⟨ring, .ready, c.tickets ++ [⟨slot, []⟩]⟩

/-- `xgq_produce` up to its first shared access. -/
def Producer.produce (p : Producer) (entry : List (BitVec 32)) : Producer :=
  if xgqRingFull p.ring then { p with pc := .refresh entry .first } else p.takeSlot entry

/-- `xgq_produce` from the refresh of the cached consumed counter on. -/
def Producer.refreshed (p : Producer) (entry : List (BitVec 32)) (value : BitVec 32) :
    Producer :=
  let p := { p with ring := xgqRingReadConsumed p.ring value, pc := .ready }
  if xgqRingFull p.ring then p else p.takeSlot entry

def Consumer.consume (c : Consumer) : Consumer :=
  if xgqRingEmpty c.ring then { c with pc := .refresh .first } else c.takeSlot

def Consumer.refreshed (c : Consumer) (value : BitVec 32) : Consumer :=
  let c := { c with ring := xgqRingReadProduced c.ring value, pc := .ready }
  if xgqRingEmpty c.ring then c else c.takeSlot

/-- The next word of the entry of ticket `j` has been stored. -/
def Producer.stored (p : Producer) (j : Nat) (t : WriteTicket) : Producer :=
  { p with tickets := p.tickets.set j { t with written := t.written + 1 } }

/-- The next word of the slot of ticket `j` has been read. -/
def Consumer.loaded (c : Consumer) (j : Nat) (t : ReadTicket) (word : BitVec 32) : Consumer :=
  { c with tickets := c.tickets.set j { t with words := t.words ++ [word] } }

def step (L : RingLayout) (doubleRead : Bool) (s : Channel) : Event → Option Channel
  | .produce entry =>
    match s.prod.pc with
    | .ready =>
      if entry.length = L.words then some { s with prod := s.prod.produce entry } else none
    | .refresh _ _ => none
  | .readConsumed =>
    match s.prod.pc with
    | .ready => none
    | .refresh entry r =>
      match r.read doubleRead s.shared.consumed with
      | .inl r => some { s with prod := { s.prod with pc := .refresh entry r } }
      | .inr value => some { s with prod := s.prod.refreshed entry value }
  | .writeWord j =>
    match s.prod.pc, s.prod.tickets[j]? with
    | .ready, some t =>
      match t.entry[t.written]? with
      | some word =>
        let mem := Function.update s.shared.mem (wordAddr t.slot t.written) word
        some { s with prod := s.prod.stored j t, shared := { s.shared with mem := mem } }
      | none => none
    | _, _ => none
  | .notifyPeerProduced =>
    match s.prod.pc with
    | .ready =>
      if ∀ t ∈ s.prod.tickets, t.written = L.words then
        some { s with
          shared := { s.shared with produced := s.prod.ring.xrProduced }
          published := s.prod.tickets.length }
      else none
    | .refresh _ _ => none
  | .consume =>
    match s.cons.pc with
    | .ready => some { s with cons := s.cons.consume }
    | .refresh _ => none
  | .readProduced =>
    match s.cons.pc with
    | .ready => none
    | .refresh r =>
      match r.read doubleRead s.shared.produced with
      | .inl r => some { s with cons := { s.cons with pc := .refresh r } }
      | .inr value => some { s with cons := s.cons.refreshed value }
  | .readWord j =>
    match s.cons.pc, s.cons.tickets[j]? with
    | .ready, some t =>
      if t.words.length < L.words then
        let word := s.shared.mem (wordAddr t.slot t.words.length)
        some { s with cons := s.cons.loaded j t word }
      else none
    | _, _ => none
  | .notifyPeerConsumed =>
    match s.cons.pc with
    | .ready =>
      if ∀ t ∈ s.cons.tickets, t.words.length = L.words then
        some { s with
          shared := { s.shared with consumed := s.cons.ring.xrConsumed }
          released := s.cons.tickets.length }
      else none
    | .refresh _ => none

/-- The entries that the producer has stored completely, in the order of `xgq_produce`. -/
def entriesWritten (L : RingLayout) (s : Channel) : List (List (BitVec 32)) :=
  (s.prod.tickets.takeWhile (·.written = L.words)).map WriteTicket.entry

/-- The entries that the consumer has read completely, in the order of `xgq_consume`. -/
def entriesRead (L : RingLayout) (s : Channel) : List (List (BitVec 32)) :=
  (s.cons.tickets.takeWhile (·.words.length = L.words)).map ReadTicket.words

end Xrt.Xgq
