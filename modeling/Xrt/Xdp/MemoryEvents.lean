import Xrt.Xdp.Packets

/-!
# The events of memory monitors

`addAIMEvent` turns a packet of a memory monitor into events. The trace id of the packet is the slot of
the monitor and a bit for writes, and it is the monitor under which the database keeps the open start.
A start behind a start, and an end without a start, get what is missing; a pulse that the hardware
merged into an end is taken apart.
-/
namespace Xrt.Xdp

open Lib

structure AIMonitor where
  cuIndex : Int
  /-- The id of the string for the memory, 0 if there is none. -/
  memStrId : Nat
deriving DecidableEq, Repr

/-- What `addAIMEvent` changes. -/
structure AIMLogger (T : Type) where
  db : Database T
  aimLastTrans : BitVec 32 → BitVec 64

namespace AIMLogger

variable {T : Type} [HostTime T] (halfCycleTimeInMs : T)

def setLastTrans (s : AIMLogger T) (slot : BitVec 32) (deviceTimestamp : BitVec 64) : AIMLogger T :=
  { s with aimLastTrans := Function.update s.aimLastTrans slot deviceTimestamp }

/-- The branch for a start. -/
def addTransferStart (ty : VTFEventType) (trace : BitVec 64) (slot : BitVec 32) (cuId : Int)
    (hostTimestamp : T) (memStrId : Nat) (s : AIMLogger T) : AIMLogger T :=
  let traceId := getTraceId trace
  let deviceTimestamp := getDeviceTimestamp trace
  -- a start behind a start: the end packet was dropped
  let s :=
    if s.db.hasMatchingStart traceId ty then
      let ended := s.db.addEnd traceId (hostTimestamp - halfCycleTimeInMs) ty slot cuId deviceTimestamp
        memStrId
      { s with db := ended }.setLastTrans slot deviceTimestamp
    else s
  { s with db := s.db.addStart traceId hostTimestamp ty slot cuId deviceTimestamp memStrId }

/-- The events for an end, up to the true end: the id of its start, its time and the database. -/
def matchTransfer (ty : VTFEventType) (trace : BitVec 64) (slot : BitVec 32) (cuId : Int)
    (hostTimestamp : T) (memStrId : Nat) (db : Database T) : Nat × T × Database T :=
  let deviceTimestamp := getDeviceTimestamp trace
  let matching := db.findMatchingStart (getTraceId trace) ty
  match matching.1 with
  | none =>
    (matching.2.nextId, hostTimestamp + halfCycleTimeInMs,
      matching.2.addEvent 0 hostTimestamp ty slot cuId deviceTimestamp memStrId)
  | some start =>
    if getReserved trace = 1 then
      if start.hostTimestamp == hostTimestamp then
        (start.eventID, hostTimestamp + halfCycleTimeInMs, matching.2)
      else
        let db := matching.2.addEvent start.eventID hostTimestamp ty slot cuId deviceTimestamp memStrId
        (db.nextId, hostTimestamp + halfCycleTimeInMs,
          db.addEvent 0 hostTimestamp ty slot cuId deviceTimestamp memStrId)
    else (start.eventID, hostTimestamp, matching.2)

def addKernelDataTransferEvent (ty : VTFEventType) (trace : BitVec 64) (slot : BitVec 32) (cuId : Int)
    (hostTimestamp : T) (memStrId : Nat) (s : AIMLogger T) : AIMLogger T :=
  if isDeviceEventTypeStart trace then
    s.addTransferStart halfCycleTimeInMs ty trace slot cuId hostTimestamp memStrId
  else
    let start := matchTransfer halfCycleTimeInMs ty trace slot cuId hostTimestamp memStrId s.db
    let ended := start.2.2.addEvent start.1 start.2.1 ty slot cuId (getDeviceTimestamp trace) memStrId
    { s with db := ended }.setLastTrans slot (getDeviceTimestamp trace)

end AIMLogger

/-- The slot and the kind of a trace id of a memory monitor. -/
def aimSlot (traceId : BitVec 64) : BitVec 32 := (traceId / 2).setWidth 32

def aimKind (traceId : BitVec 64) : VTFEventType :=
  if traceId &&& 1 ≠ 0 then .kernelWrite else .kernelRead

variable {T : Type} [HostTime T]

def addAIMEvent (halfCycleTimeInMs : T) (getAIMonitor : BitVec 32 → Option AIMonitor)
    (s : AIMLogger T) (packet : BitVec 64 × T) : AIMLogger T :=
  let traceID := getTraceId packet.1
  match getAIMonitor (aimSlot traceID) with
  | none => s
  | some mon =>
    s.addKernelDataTransferEvent halfCycleTimeInMs (aimKind traceID) packet.1 (aimSlot traceID)
      mon.cuIndex packet.2 mon.memStrId

/-! ### The events of a slot and kind -/

/-- Reads and writes have a monitor each. -/
inductive AIMKind
  | read
  | write
deriving DecidableEq, Repr

def AIMKind.type : AIMKind → VTFEventType
  | .read => .kernelRead
  | .write => .kernelWrite

def aimMonitor (slot : BitVec 32) (kind : AIMKind) : BitVec 64 :=
  slot.setWidth 64 * 2 + if kind = .write then 1 else 0

/-- Every slot and kind has balanced events and at most one open start, which is the one without an
end. -/
structure AIMInv {T : Type} (s : AIMLogger T) : Prop where
  ids : s.db.nextId ≠ 0
  tracks : ∀ slot kind, ∃ current, Track s.db (aimMonitor slot kind) slot kind.type current

theorem toNat_aimMonitor (slot : BitVec 32) (kind : AIMKind) :
    (aimMonitor slot kind).toNat = 2 * slot.toNat + if kind = .write then 1 else 0 := by
  have bound := slot.isLt
  rw [aimMonitor]
  split <;> simp <;> omega

theorem aimMonitor_inj {slot slot' : BitVec 32} {kind kind' : AIMKind}
    (same : aimMonitor slot kind = aimMonitor slot' kind') : slot = slot' ∧ kind = kind' := by
  have equal := congrArg BitVec.toNat same
  rw [toNat_aimMonitor, toNat_aimMonitor] at equal
  cases kind <;> cases kind' <;> simp at equal ⊢ <;> first | omega | exact BitVec.eq_of_toNat_eq (by omega)

/-- The trace id of a packet is the monitor of its slot and kind. -/
theorem exists_aimKind (trace : BitVec 64) :
    ∃ kind : AIMKind, aimKind (getTraceId trace) = kind.type ∧
      aimMonitor (aimSlot (getTraceId trace)) kind = getTraceId trace := by
  have bound : (getTraceId trace).toNat < 4096 := by
    rw [getTraceId, BitVec.toNat_and]
    exact Nat.lt_of_le_of_lt Nat.and_le_right (by decide)
  generalize getTraceId trace = t at bound ⊢
  have bit : (t &&& 1).toNat = t.toNat % 2 := by
    rw [BitVec.toNat_and]
    exact Nat.and_one_is_mod _
  have slot : (aimSlot t).toNat = t.toNat / 2 := by
    simp only [aimSlot, BitVec.toNat_setWidth, BitVec.toNat_udiv, BitVec.reduceToNat]
    omega
  by_cases even : t &&& 1 = 0
  · refine ⟨.read, if_neg (not_not.mpr even), BitVec.eq_of_toNat_eq ?_⟩
    rw [even] at bit
    rw [toNat_aimMonitor, slot, if_neg (by decide)]
    simp at bit
    omega
  · refine ⟨.write, if_pos even, BitVec.eq_of_toNat_eq ?_⟩
    have odd : (t &&& 1).toNat ≠ 0 := fun zero => even (BitVec.eq_of_toNat_eq zero)
    rw [toNat_aimMonitor, slot, if_pos rfl]
    omega

variable {s : AIMLogger T} {halfCycleTimeInMs hostTimestamp : T} {ty : VTFEventType}
  {trace : BitVec 64} {slot : BitVec 32} {cuId : Int} {memStrId : Nat} {current : Option Nat}

namespace AIMLogger

theorem only_matchTransfer (db : Database T) :
    Only (getTraceId trace) slot ty db
      (matchTransfer halfCycleTimeInMs ty trace slot cuId hostTimestamp memStrId db).2.2 := by
  rw [matchTransfer]
  split
  · exact only_findMatchingStart.trans only_addEvent
  · split_ifs
    · exact only_findMatchingStart
    · exact only_findMatchingStart.trans (only_addEvent.trans only_addEvent)
    · exact only_findMatchingStart

theorem only_addKernelDataTransferEvent :
    Only (getTraceId trace) slot ty s.db
      (s.addKernelDataTransferEvent halfCycleTimeInMs ty trace slot cuId hostTimestamp memStrId).db := by
  simp only [addKernelDataTransferEvent, addTransferStart]
  split_ifs
  · exact only_addEnd.trans only_addStart
  · exact only_addStart
  · exact (only_matchTransfer s.db).trans only_addEvent

theorem track_addTransferStart (track : Track s.db (getTraceId trace) slot ty current)
    (positive : s.db.nextId ≠ 0) :
    ∃ next, Track (s.addTransferStart halfCycleTimeInMs ty trace slot cuId hostTimestamp memStrId).db
      (getTraceId trace) slot ty next := by
  rw [addTransferStart, track.hasMatchingStart]
  cases current with
  | none => exact ⟨_, track.start positive⟩
  | some id => exact ⟨_, track.addEnd.start (Nat.succ_ne_zero _)⟩

theorem track_addTransferEnd {db : Database T}
    (track : Track db (getTraceId trace) slot ty current) :
    Track ((matchTransfer halfCycleTimeInMs ty trace slot cuId hostTimestamp memStrId db).2.2.addEvent
      (matchTransfer halfCycleTimeInMs ty trace slot cuId hostTimestamp memStrId db).1
      (matchTransfer halfCycleTimeInMs ty trace slot cuId hostTimestamp memStrId db).2.1 ty slot cuId
      (getDeviceTimestamp trace) memStrId) (getTraceId trace) slot ty none := by
  cases current with
  | none =>
    obtain ⟨missing, closed⟩ := track.find_none
    rw [matchTransfer, missing]
    exact closed.pulse
  | some id =>
    obtain ⟨info, found, rfl, balanced, closed⟩ := track.find
    rw [matchTransfer, found]
    dsimp only
    split_ifs
    · exact Track.stop balanced closed
    · exact (Track.stop balanced closed).pulse
    · exact Track.stop balanced closed

end AIMLogger

theorem AIMInv.step (inv : AIMInv s) (getAIMonitor : BitVec 32 → Option AIMonitor)
    (packet : BitVec 64 × T) : AIMInv (addAIMEvent halfCycleTimeInMs getAIMonitor s packet) := by
  rw [addAIMEvent]
  split
  · exact inv
  next mon _ =>
    obtain ⟨kind, type, monitor⟩ := exists_aimKind packet.1
    rw [type]
    have only := @AIMLogger.only_addKernelDataTransferEvent T _ s halfCycleTimeInMs packet.2 kind.type
      packet.1 (aimSlot (getTraceId packet.1)) mon.cuIndex mon.memStrId
    refine ⟨fun zero => inv.ids (Nat.le_zero.mp (zero ▸ only.ids)), fun slot' kind' => ?_⟩
    obtain ⟨current, track⟩ := inv.tracks slot' kind'
    by_cases here : slot' = aimSlot (getTraceId packet.1) ∧ kind' = kind
    · obtain ⟨rfl, rfl⟩ := here
      rw [monitor] at track ⊢
      rw [AIMLogger.addKernelDataTransferEvent]
      split_ifs
      · exact AIMLogger.track_addTransferStart track inv.ids
      · exact ⟨none, AIMLogger.track_addTransferEnd track⟩
    · have other : kind'.type = kind.type → kind' = kind := by
        cases kind' <;> cases kind <;> simp [AIMKind.type]
      refine ⟨current, track.frame only (fun same => here ?_) fun same => here ?_⟩
      · rw [Prod.mk.injEq] at same
        exact ⟨same.1, other same.2⟩
      · rw [Prod.mk.injEq, ← monitor] at same
        exact aimMonitor_inj same.1

theorem AIMInv.run (inv : AIMInv s) (getAIMonitor : BitVec 32 → Option AIMonitor)
    (packets : List (BitVec 64 × T)) :
    AIMInv (packets.foldl (addAIMEvent halfCycleTimeInMs getAIMonitor) s) := by
  induction packets generalizing s with
  | nil => exact inv
  | cons packet packets ih => exact ih (inv.step getAIMonitor packet)

/-- A logger before the first packet, when the ids up to `used` are taken. -/
def AIMLogger.fresh {T : Type} (used : Nat) : AIMLogger T := ⟨⟨used + 1, [], fun _ => []⟩, fun _ => 0⟩

theorem aimInv_fresh {T : Type} (used : Nat) : AIMInv (AIMLogger.fresh used : AIMLogger T) :=
  ⟨Nat.succ_ne_zero used, fun _ _ => ⟨none, rfl, rfl, nofun⟩⟩

/-- After any packets of memory monitors, the events of every slot and kind are balanced, and at most
one start is open, the one that has no end. -/
theorem memory_events_balanced (halfCycleTimeInMs : T) (getAIMonitor : BitVec 32 → Option AIMonitor)
    (used : Nat) (packets : List (BitVec 64 × T)) (slot : BitVec 32) (kind : AIMKind) :
    ∃ current,
      Balanced ((packets.foldl (addAIMEvent halfCycleTimeInMs getAIMonitor)
        (AIMLogger.fresh used)).db.log slot kind.type) current ∧
      ((packets.foldl (addAIMEvent halfCycleTimeInMs getAIMonitor) (AIMLogger.fresh used)).db.opens
        (aimMonitor slot kind) kind.type).map EventInfo.eventID = current.toList := by
  obtain ⟨current, track⟩ := ((aimInv_fresh used).run getAIMonitor packets).tracks slot kind
  exact ⟨current, track.balanced, track.opens⟩

end Xrt.Xdp
