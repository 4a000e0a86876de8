import Mathlib.Logic.Function.Basic
import Xrt.Lib.Lists
import Xrt.Lib.Run

/-!
# Trace packets and the events of a device

The fields of a trace packet, and the part of the profiling database that keeps the events of a device
and their open starts.

Host time is of type `double`. Here it is any type with the operations that are used, and nothing is
assumed of them.
-/
namespace Xrt.Xdp

/-- The operations on host time. -/
class HostTime (T : Type) extends Add T, Sub T, BEq T

/-! ### Packets -/

def max_trace_id_aim : BitVec 64 := 61
def min_trace_id_am : BitVec 64 := 64
def max_trace_id_am : BitVec 64 := 544
def min_trace_id_asm : BitVec 64 := 576
def max_trace_id_asm : BitVec 64 := 607

/-- A field of the logger that is never assigned. -/
def firstTimestamp : BitVec 64 := 0

def getDeviceTimestamp (trace : BitVec 64) : BitVec 64 := (trace &&& 0x1FFFFFFFFFFF) - firstTimestamp
def isDeviceEventTypeStart (trace : BitVec 64) : Bool := (trace >>> 45) &&& 0xF == 0
def getTraceId (trace : BitVec 64) : BitVec 64 := (trace >>> 49) &&& 0xFFF
def getReserved (trace : BitVec 64) : BitVec 64 := (trace >>> 61) &&& 0x1
def isClockTraining (trace : BitVec 64) : Bool := (trace >>> 63) &&& 0x1 == 1

/-! ### Events -/

inductive VTFEventType
  | kernel
  | kernelStallExtMem
  | kernelStallDataflow
  | kernelStallPipe
  | kernelRead
  | kernelWrite
  deriving DecidableEq, Repr

/-- An event of a device. The id of its start is 0 if it is a start itself. -/
structure Event (T : Type) where
  id : Nat
  startId : Nat
  type : VTFEventType
  hostTimestamp : T
  deviceTimestamp : BitVec 64
  slot : BitVec 32
  cuId : Int
  memStrId : Nat
  deriving DecidableEq, Repr

/-- `DeviceEventInfo` of a start. -/
structure EventInfo (T : Type) where
  type : VTFEventType
  eventID : Nat
  hostTimestamp : T
  deviceTimestamp : BitVec 64
  deriving DecidableEq, Repr

/-- The events of a device, the next id, and the open starts of each monitor. The events are in the
order of logging, which is that of their ids; `PLDB` keeps them in a multimap by host time. -/
structure Database (T : Type) where
  nextId : Nat
  events : List (Event T)
  startEvents : BitVec 64 → List (EventInfo T)

namespace Database

variable {T : Type}

variable (db : Database T)

def addEvent (startId : Nat) (hostTimestamp : T) (type : VTFEventType)
    (slot : BitVec 32) (cuId : Int) (deviceTimestamp : BitVec 64) (memStrId : Nat) : Database T :=
  { db with
    nextId := db.nextId + 1
    events := db.events ++
      [⟨db.nextId, startId, type, hostTimestamp, deviceTimestamp, slot, cuId, memStrId⟩] }

def markStart (monitorId : BitVec 64) (info : EventInfo T) : Database T :=
  let starts := db.startEvents monitorId ++ [info]
  { db with startEvents := Function.update db.startEvents monitorId starts }

/-- The first open start of a type, which is open no longer. -/
def findMatchingStart (monitorId : BitVec 64) (type : VTFEventType) :
    Option (EventInfo T) × Database T :=
  let starts := db.startEvents monitorId
  (starts.find? (·.type == type),
    { db with
      startEvents := Function.update db.startEvents monitorId (starts.eraseP (·.type == type)) })

def hasMatchingStart (monitorId : BitVec 64) (type : VTFEventType) : Bool :=
  (db.startEvents monitorId).any (·.type == type)

/-- An event that is a start, with its entry in the open ones. -/
def addStart (monitorId : BitVec 64) (hostTimestamp : T) (type : VTFEventType)
    (slot : BitVec 32) (cuId : Int) (deviceTimestamp : BitVec 64) (memStrId : Nat) : Database T :=
  (db.addEvent 0 hostTimestamp type slot cuId deviceTimestamp memStrId).markStart monitorId
    ⟨type, db.nextId, hostTimestamp, deviceTimestamp⟩

/-- An event that ends the first open start, or has 0 in its place. -/
def addEnd (monitorId : BitVec 64) (hostTimestamp : T) (type : VTFEventType)
    (slot : BitVec 32) (cuId : Int) (deviceTimestamp : BitVec 64) (memStrId : Nat) : Database T :=
  let start := db.findMatchingStart monitorId type
  start.2.addEvent ((start.1.map EventInfo.eventID).getD 0) hostTimestamp type slot cuId
    deviceTimestamp memStrId

/-! ### Balanced events -/

/-- The events of a type in a slot. -/
def log (slot : BitVec 32) (type : VTFEventType) : List (Event T) :=
  db.events.filter fun e => e.slot == slot && e.type == type

/-- The open starts of a type. -/
def opens (monitorId : BitVec 64) (type : VTFEventType) : List (EventInfo T) :=
  (db.startEvents monitorId).filter (·.type == type)

end Database

open Lib

/-- One event after another: a start if none is open, or else the end of the one that is. -/
def balanceStep {T : Type} (current : Option Nat) (e : Event T) : Option (Option Nat) :=
  match current with
  | none => if e.startId = 0 then some (some e.id) else none
  | some id => if e.startId = id then some none else none

/-- Starts and ends alternate, beginning with a start, each end with the id of the start before it;
`current` is the start that has no end yet. -/
def Balanced {T : Type} (events : List (Event T)) (current : Option Nat) : Prop :=
  run balanceStep none events = some current

/-- The events of a type in a slot are balanced, and the start without an end is the open one. Its id
is not 0, which stands for a start. -/
structure Track {T : Type} (db : Database T) (monitorId : BitVec 64) (slot : BitVec 32)
    (type : VTFEventType) (current : Option Nat) : Prop where
  balanced : Balanced (db.log slot type) current
  opens : (db.opens monitorId type).map EventInfo.eventID = current.toList
  positive : ∀ id, current = some id → id ≠ 0

/-- A part of the logger that is about one type, slot and monitor. -/
structure Only {T : Type} (monitorId : BitVec 64) (slot : BitVec 32) (type : VTFEventType)
    (db db' : Database T) : Prop where
  log : ∀ slot' type', (slot', type') ≠ (slot, type) → db'.log slot' type' = db.log slot' type'
  opens : ∀ m type', (m, type') ≠ (monitorId, type) → db'.opens m type' = db.opens m type'
  ids : db.nextId ≤ db'.nextId

section

variable {T : Type} {db db' db'' : Database T} {monitorId : BitVec 64} {slot : BitVec 32}
  {type : VTFEventType} {current : Option Nat} {startId id : Nat} {hostTimestamp : T} {cuId : Int}
  {deviceTimestamp : BitVec 64} {memStrId : Nat}

theorem Only.trans (first : Only monitorId slot type db db') (second : Only monitorId slot type db' db'') :
    Only monitorId slot type db db'' where
  log slot' type' ne := (second.log slot' type' ne).trans (first.log slot' type' ne)
  opens m type' ne := (second.opens m type' ne).trans (first.opens m type' ne)
  ids := first.ids.trans second.ids

theorem only_addEvent :
    Only monitorId slot type db
      (db.addEvent startId hostTimestamp type slot cuId deviceTimestamp memStrId) where
  log slot' type' ne := by
    have other : (slot == slot' && type == type') = false := by
      rw [Bool.and_eq_false_iff, beq_eq_false_iff_ne, beq_eq_false_iff_ne, ← not_and_or]
      rintro ⟨rfl, rfl⟩
      exact ne rfl
    simp [Database.log, Database.addEvent, other]
  opens _ _ _ := rfl
  ids := Nat.le_succ _

theorem only_markStart (info : EventInfo T) (same : info.type = type) :
    Only monitorId slot type db (db.markStart monitorId info) where
  log _ _ _ := rfl
  opens m type' ne := by
    by_cases here : m = monitorId
    · subst here
      have other : (info.type == type') = false := beq_eq_false_iff_ne.mpr fun eq =>
        ne (by rw [← eq, same])
      simp [Database.opens, Database.markStart, other]
    · simp [Database.opens, Database.markStart, Function.update_of_ne here]
  ids := le_rfl

theorem only_findMatchingStart :
    Only monitorId slot type db (db.findMatchingStart monitorId type).2 where
  log _ _ _ := rfl
  opens m type' ne := by
    by_cases here : m = monitorId
    · subst here
      simp only [Database.opens, Database.findMatchingStart, Function.update_self]
      refine filter_eraseP_of_apart (fun info found => ?_) _
      rw [beq_iff_eq] at found
      exact beq_eq_false_iff_ne.mpr fun eq => ne (by rw [← eq, found])
    · simp [Database.opens, Database.findMatchingStart, Function.update_of_ne here]
  ids := le_rfl

theorem log_addEvent :
    (db.addEvent startId hostTimestamp type slot cuId deviceTimestamp memStrId).log slot type =
      db.log slot type ++
        [⟨db.nextId, startId, type, hostTimestamp, deviceTimestamp, slot, cuId, memStrId⟩] := by
  simp [Database.log, Database.addEvent]

theorem findMatchingStart_fst :
    (db.findMatchingStart monitorId type).1 = (db.opens monitorId type).head? := by
  simp [Database.findMatchingStart, Database.opens]

theorem opens_findMatchingStart :
    (db.findMatchingStart monitorId type).2.opens monitorId type = (db.opens monitorId type).tail := by
  simp only [Database.opens, Database.findMatchingStart, Function.update_self, filter_eraseP_self]

theorem hasMatchingStart_eq :
    db.hasMatchingStart monitorId type = !(db.opens monitorId type).isEmpty := by
  rw [Database.hasMatchingStart, Database.opens, Bool.eq_iff_iff]
  simp [List.any_eq_true, List.filter_eq_nil_iff]

theorem opens_markStart (info : EventInfo T) (same : info.type = type) :
    (db.markStart monitorId info).opens monitorId type = db.opens monitorId type ++ [info] := by
  simp [Database.opens, Database.markStart, same]

theorem only_addStart :
    Only monitorId slot type db
      (db.addStart monitorId hostTimestamp type slot cuId deviceTimestamp memStrId) :=
  only_addEvent.trans (only_markStart _ rfl)

theorem only_addEnd :
    Only monitorId slot type db
      (db.addEnd monitorId hostTimestamp type slot cuId deviceTimestamp memStrId) :=
  only_findMatchingStart.trans only_addEvent

/-- Another type, slot or monitor is tracked as before. -/
theorem Track.frame {m : BitVec 64} {slot' : BitVec 32} {type' : VTFEventType}
    (track : Track db m slot' type' current) (only : Only monitorId slot type db db')
    (ne : (slot', type') ≠ (slot, type)) (ne' : (m, type') ≠ (monitorId, type)) :
    Track db' m slot' type' current where
  balanced := only.log slot' type' ne ▸ track.balanced
  opens := only.opens m type' ne' ▸ track.opens
  positive := track.positive

theorem Balanced.concat {events : List (Event T)} {e : Event T} {next : Option Nat}
    (balanced : Balanced events current) (step : balanceStep current e = some next) :
    Balanced (events ++ [e]) next := by
  rw [Balanced, run_append, balanced, Option.bind_some, run_cons, step]
  rfl

theorem Track.start (track : Track db monitorId slot type none) (positive : db.nextId ≠ 0) :
    Track (db.addStart monitorId hostTimestamp type slot cuId deviceTimestamp memStrId) monitorId slot
      type (some db.nextId) where
  balanced := by
    have same : (db.addStart monitorId hostTimestamp type slot cuId deviceTimestamp memStrId).log slot
        type = _ := log_addEvent
    rw [same]
    exact track.balanced.concat rfl
  opens := by
    have none := List.map_eq_nil_iff.mp track.opens
    rw [Database.addStart, opens_markStart _ rfl]
    change (db.opens monitorId type ++ [_]).map _ = _
    rw [none]
    rfl
  positive := by
    rintro id ⟨⟩
    exact positive

theorem Track.hasMatchingStart (track : Track db monitorId slot type current) :
    db.hasMatchingStart monitorId type = current.isSome := by
  have opens := track.opens
  rw [hasMatchingStart_eq]
  cases current with
  | none => rw [List.map_eq_nil_iff.mp opens, List.isEmpty_nil, Bool.not_true, Option.isSome_none]
  | some id =>
    obtain ⟨info, one, -⟩ := List.map_eq_singleton_iff.mp opens
    rw [one, List.isEmpty_cons, Bool.not_false, Option.isSome_some]

/-- The open start is found, and no start is open then. -/
theorem Track.find (track : Track db monitorId slot type (some id)) :
    ∃ info, (db.findMatchingStart monitorId type).1 = some info ∧ info.eventID = id ∧
      Balanced ((db.findMatchingStart monitorId type).2.log slot type) (some id) ∧
      (db.findMatchingStart monitorId type).2.opens monitorId type = [] := by
  obtain ⟨info, one, same⟩ := List.map_eq_singleton_iff.mp track.opens
  refine ⟨info, ?_, same, track.balanced, ?_⟩
  · rw [findMatchingStart_fst, one, List.head?_cons]
  · rw [opens_findMatchingStart, one, List.tail_cons]

theorem Track.find_none (track : Track db monitorId slot type none) :
    (db.findMatchingStart monitorId type).1 = none ∧
      Track (db.findMatchingStart monitorId type).2 monitorId slot type none := by
  have none := List.map_eq_nil_iff.mp track.opens
  refine ⟨?_, track.balanced, ?_, nofun⟩
  · rw [findMatchingStart_fst, none, List.head?_nil]
  · rw [opens_findMatchingStart, none]
    rfl

/-- The end of the current start, once it is no longer open. -/
theorem Track.stop (balanced : Balanced (db.log slot type) (some id))
    (closed : db.opens monitorId type = []) :
    Track (db.addEvent id hostTimestamp type slot cuId deviceTimestamp memStrId) monitorId slot type
      none where
  balanced := by
    rw [log_addEvent]
    exact balanced.concat (if_pos rfl)
  opens := by
    change (db.opens monitorId type).map _ = _
    rw [closed]
    rfl
  positive := nofun

theorem Track.addEnd (track : Track db monitorId slot type (some id)) :
    Track (db.addEnd monitorId hostTimestamp type slot cuId deviceTimestamp memStrId) monitorId slot type
      none := by
  obtain ⟨info, found, rfl, balanced, closed⟩ := track.find
  rw [Database.addEnd, found]
  exact Track.stop balanced closed

/-- A start that is not recorded as open, and its end. -/
theorem Track.pulse {hostTimestamp' : T} (track : Track db monitorId slot type none) :
    Track ((db.addEvent 0 hostTimestamp type slot cuId deviceTimestamp memStrId).addEvent db.nextId
      hostTimestamp' type slot cuId deviceTimestamp memStrId) monitorId slot type none := by
  refine Track.stop ?_ (List.map_eq_nil_iff.mp track.opens)
  rw [log_addEvent]
  exact track.balanced.concat rfl

end

end Xrt.Xdp
