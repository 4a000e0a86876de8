import Mathlib.Algebra.GroupWithZero.Nat
import Mathlib.Data.List.Perm.Basic
import Xrt.Errno
import Xrt.Lib.Ledger

/-!
# Downloading an xclbin

`zocl_ov_get_xclbin` collects the packets of an xclbin in a list of nodes, copies their data into one
buffer, loads it, and frees the list and the buffer whatever happened. A download leaves a ledger of
`att_rwlock` and one of the memory.

There are three ways to go wrong. A node whose data cannot be allocated is not in the list yet. A
failed load goes to the clean-up without the lock. The size of a node is what the header said, and not
bounded by that of its data.
-/
namespace Xrt.Ospi

open Lib

def ENXIO : Int := 6

def XRT_XFR_PKT_FLAGS_LAST : BitVec 8 := 1

/-- A new packet: two fields of its header, and whether the allocations for it succeed. -/
structure Packet where
  pktFlags : BitVec 8
  pktSize : BitVec 16
  nodeOk : Bool := true
  dataOk : Bool := true
deriving DecidableEq, Repr

/-- `zocl_ov_pkt_node` of the packet with that index; its data have the size of the BRAM. -/
structure PktNode where
  index : Nat
  znSize : Nat
deriving DecidableEq, Repr

inductive Mem
  | node (i : Nat)
  | data (i : Nat)
  | xclbin
deriving DecidableEq, Repr

/-- What `zocl_ov_recieve` leaves: the list, and what it allocated and did not put there. -/
structure Received where
  ret : Int
  nodes : List PktNode
  lost : List Mem
deriving DecidableEq, Repr

/-- `none` is the wait for a packet that does not come. -/
def zoclOvRecieve : List Packet → (i : Nat) → Option Received
  | [], _ => none
  | pkt :: later, i =>
    if pkt.nodeOk = false then some ⟨-ENOMEM, [], []⟩
    else if pkt.dataOk = false then some ⟨-ENOMEM, [], [.node i]⟩
    else if pkt.pktFlags &&& XRT_XFR_PKT_FLAGS_LAST ≠ 0 then some ⟨0, [⟨i, pkt.pktSize.toNat⟩], []⟩
    else (zoclOvRecieve later (i + 1)).map fun r =>
      { r with nodes := ⟨i, pkt.pktSize.toNat⟩ :: r.nodes }

/-- What the steps behind the packets come to: `vmalloc` of the buffer, the parent device that is known
or found, its driver data, and the result of `zocl_xclbin_load_pdi`. -/
structure World where
  xclbinOk : Bool
  ppdev : Bool
  parentFound : Bool
  drvdata : Bool
  loadPdi : Int
deriving DecidableEq, Repr

inductive Status
  | fail
  | done
deriving DecidableEq, Repr

structure Call where
  ret : Int
  status : Status
  locks : List (Entry Unit)
  memory : List (Entry Mem)
  /-- The nodes of which `zn_size` bytes were read. -/
  reads : List PktNode
deriving DecidableEq, Repr

namespace Received

def total (r : Received) : Nat := (r.nodes.map PktNode.znSize).sum

/-- The allocations of a download, in their order. -/
def allocated (r : Received) (copied : Bool) : List Mem :=
  r.nodes.flatMap (fun node => [.node node.index, .data node.index]) ++ r.lost ++
    if copied then [.xclbin] else []

/-- What `zocl_ov_clean` and the last `vfree` free. -/
def freed (r : Received) (copied : Bool) : List Mem :=
  r.nodes.flatMap (fun node => [.data node.index, .node node.index]) ++
    if copied then [.xclbin] else []

/-- The part behind the label `out`; the buffer is there once the data were copied. -/
def out (r : Received) (ret : Int) (locks : List (Entry Unit)) (copied : Bool) : Call where
  ret := ret
  status := if ret = 0 then .done else .fail
  locks := locks ++ [.release ()]
  memory := (r.allocated copied).map .acquire ++ (r.freed copied).map .release
  reads := if copied then r.nodes else []

/-- `zocl_ov_get_xclbin`, from the packets on. The driver data are not null where it tests them for
the second time. -/
def finish (r : Received) (w : World) : Call :=
  if r.ret ≠ 0 then r.out r.ret [.acquire ()] false
  else if r.total = 0 then r.out (-EINVAL) [.acquire ()] false
  else if w.xclbinOk = false then r.out (-ENOMEM) [.acquire ()] false
  else if w.ppdev = false ∧ w.parentFound = false then r.out (- ENXIO) [.acquire ()] true
  else if w.drvdata = false then r.out (- ENXIO) [.acquire ()] true
  else if w.loadPdi ≠ 0 then r.out w.loadPdi [.acquire (), .release ()] true
  else r.out 0 [.acquire (), .release (), .acquire ()] true

end Received

def zoclOvGetXclbin (w : World) (packets : List Packet) : Option Call :=
  (zoclOvRecieve packets 0).map (·.finish w)

/-- The lock and the memory are given back, once, and no more is read than there is. -/
structure Call.Clean (call : Call) (size : Nat) : Prop where
  locks : Settled call.locks
  memory : Settled call.memory
  reads : ∀ node ∈ call.reads, node.znSize ≤ size

variable {r : Received} {w : World} {ret : Int} {locks : List (Entry Unit)} {size : Nat}

theorem memory_settled_iff (ret : Int) (locks : List (Entry Unit)) (copied : Bool) :
    Settled (r.out ret locks copied).memory ↔ r.lost = [] := by
  have swap : (r.nodes.flatMap fun node => [Mem.data node.index, .node node.index]).Perm
      (r.nodes.flatMap fun node => [.node node.index, .data node.index]) :=
    List.Perm.flatMap_left _ fun node _ => List.Perm.swap ..
  rw [Received.out, settled_acquires_releases_iff, Received.freed, Received.allocated]
  constructor
  · intro perm
    have length := perm.length_eq
    rw [List.length_append, List.length_append, List.length_append, swap.length_eq] at length
    exact List.eq_nil_of_length_eq_zero (by omega)
  · intro none
    rw [none, List.append_nil]
    exact swap.append_right _

theorem out_clean_iff (copied : Bool) :
    (r.out ret locks copied).Clean size ↔
      Settled (locks ++ [.release ()]) ∧ r.lost = [] ∧
        (copied = true → ∀ node ∈ r.nodes, node.znSize ≤ size) := by
  rw [← memory_settled_iff ret locks copied]
  constructor
  · intro clean
    refine ⟨clean.locks, clean.memory, fun yes => ?_⟩
    have reads := clean.reads
    rwa [Received.out, if_pos yes] at reads
  · rintro ⟨locks, memory, reads⟩
    refine ⟨locks, memory, fun node member => ?_⟩
    cases copied with
    | false => cases member
    | true => exact reads rfl node member

/-- The packet is the last that is waited for. -/
def Packet.Ends (pkt : Packet) : Prop :=
  pkt.nodeOk = false ∨ pkt.dataOk = false ∨ pkt.pktFlags &&& XRT_XFR_PKT_FLAGS_LAST ≠ 0

/-- What is received, by the packets before the last one and by that one. -/
theorem zoclOvRecieve_spec {front rest : List Packet} {final : Packet}
    (ahead : ∀ pkt ∈ front, ¬ pkt.Ends) (ends : final.Ends) (i : Nat) :
    ∃ r, zoclOvRecieve (front ++ final :: rest) i = some r
      ∧ (r.lost = [] ↔ (final.nodeOk = true → final.dataOk = true))
      ∧ (r.ret = 0 ↔ final.nodeOk = true ∧ final.dataOk = true)
      ∧ (r.ret = 0 → r.nodes.map PktNode.znSize = (front ++ [final]).map (·.pktSize.toNat)) := by
  induction front generalizing i with
  | nil =>
    rw [List.nil_append, zoclOvRecieve]
    unfold Packet.Ends at ends
    split_ifs with noNode noData last
    · exact ⟨_, rfl, by simp [noNode], by simp [noNode, ENOMEM], by simp [ENOMEM]⟩
    · exact ⟨_, rfl, by simp [noNode, noData], by simp [noData, ENOMEM], by simp [ENOMEM]⟩
    · exact ⟨_, rfl, by simp [noData], by simp [noNode, noData], fun _ => rfl⟩
    · exact absurd ends (by simp_all)
  | cons pkt front ih =>
    obtain ⟨first, later⟩ := List.forall_mem_cons.mp ahead
    obtain ⟨r, received, lost, ret, sizes⟩ := ih later (i + 1)
    simp only [Packet.Ends, not_or, not_not] at first
    rw [List.cons_append, zoclOvRecieve, if_neg first.1, if_neg first.2.1,
      if_neg (not_not.mpr first.2.2), received]
    exact ⟨_, rfl, lost, ret, fun good => congrArg (pkt.pktSize.toNat :: ·) (sizes good)⟩

/-- All of the packets were received, they are not empty, and there is a buffer for them. -/
def Copied (w : World) (front : List Packet) (final : Packet) : Prop :=
  (final.nodeOk = true ∧ final.dataOk = true) ∧ (∃ pkt ∈ front ++ [final], pkt.pktSize ≠ 0)
    ∧ w.xclbinOk = true

/-- **A download is clean if and only if** the data of the packet at which it ends do not fail to be
allocated behind its node, no packet that is copied has more than its data, and no load fails. -/
theorem download_clean_iff (size : Nat) (w : World) {front rest : List Packet} {final : Packet}
    (ahead : ∀ pkt ∈ front, ¬ pkt.Ends) (ends : final.Ends) :
    ∃ call, zoclOvGetXclbin w (front ++ final :: rest) = some call ∧
      (call.Clean size ↔ (final.nodeOk = true → final.dataOk = true) ∧
        (Copied w front final → (∀ pkt ∈ front ++ [final], pkt.pktSize.toNat ≤ size) ∧
          ((w.ppdev = true ∨ w.parentFound = true) ∧ w.drvdata = true → w.loadPdi = 0))) := by
  obtain ⟨r, received, lost, returned, sizes⟩ := @zoclOvRecieve_spec front rest final ahead ends 0
  refine ⟨r.finish w, by rw [zoclOvGetXclbin, received, Option.map_some], ?_⟩
  rw [← lost]
  have fits (good : r.ret = 0) : (∀ node ∈ r.nodes, node.znSize ≤ size)
      ↔ ∀ pkt ∈ front ++ [final], pkt.pktSize.toNat ≤ size := by
    have all : (∀ n ∈ r.nodes.map PktNode.znSize, n ≤ size)
        ↔ ∀ n ∈ (front ++ [final]).map (·.pktSize.toNat), n ≤ size := by rw [sizes good]
    rwa [List.forall_mem_map, List.forall_mem_map] at all
  have some' (good : r.ret = 0) : r.total ≠ 0 ↔ ∃ pkt ∈ front ++ [final], pkt.pktSize ≠ 0 := by
    rw [Received.total, sizes good, ne_eq, List.sum_eq_zero_iff_forall_eq_nat]
    simp [← BitVec.toNat_inj]
  rw [Copied, ← returned]
  simp only [Received.finish]
  -- the lock is settled on every way to the end but the one of a failed load
  have early : Settled [.acquire (), .release ()] := rfl
  have late : ¬ Settled [.acquire (), .release (), .release ()] := nofun
  have again : Settled [.acquire (), .release (), .acquire (), .release ()] := rfl
  by_cases good : r.ret = 0
  · rw [← fits good, ← some' good, if_neg (not_not.mpr good)]
    split_ifs with empty buffer parent driver load <;> rw [out_clean_iff]
    · simp [early, empty]
    · simp [early, buffer]
    · simp [early, good, empty, buffer, parent]
    · simp [early, good, empty, buffer, driver]
    · simp [late, good, empty, buffer, parent, driver, load]
    · simp [again, good, empty, buffer, not_not.mp load]
  · rw [if_pos good, out_clean_iff]
    simp [early, good]

/-- Two packets of three bytes, the second of them the last. -/
theorem six_bytes_clean :
    ∃ call, zoclOvGetXclbin ⟨true, true, true, true, 0⟩ [⟨0, 3, true, true⟩, ⟨1, 3, true, true⟩] = some call
      ∧ call.Clean 8 := by
  obtain ⟨call, done, clean⟩ := @download_clean_iff 8 ⟨true, true, true, true, 0⟩
    [⟨0, 3, true, true⟩] [] ⟨1, 3, true, true⟩ (by simp [Packet.Ends]) (Or.inr (Or.inr (by decide)))
  exact ⟨call, done, clean.mpr ⟨fun _ => rfl, fun _ => ⟨by decide, fun _ => rfl⟩⟩⟩

/-- A load that fails, data that cannot be allocated, and a header with more than the BRAM has. -/
theorem downloads_not_clean :
    (∃ call, zoclOvGetXclbin ⟨true, true, true, true, -22⟩ [⟨1, 3, true, true⟩] = some call ∧
        replay [] call.locks = none) ∧
      (∃ call, zoclOvGetXclbin ⟨true, true, true, true, 0⟩ [⟨1, 3, true, false⟩] = some call ∧
        replay [] call.memory = some [.node 0]) ∧
      ∃ call, zoclOvGetXclbin ⟨true, true, true, true, 0⟩ [⟨1, 9, true, true⟩] = some call ∧
        ∃ node ∈ call.reads, 8 < node.znSize :=
  ⟨⟨_, rfl, rfl⟩, ⟨_, rfl, rfl⟩, _, rfl, ⟨0, 9⟩, by decide, by decide⟩

end Xrt.Ospi
