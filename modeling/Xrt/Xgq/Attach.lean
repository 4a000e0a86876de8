import Mathlib.Data.Fintype.Card
import Mathlib.Order.Interval.Finset.Fin
import Xrt.Lib.Run
import Xrt.Xgq.Client

/-!
# The client table of an XGQ

Clients attach to a queue and detach from it. Entries below `xx_num_client` are used again after a
detach; only if all of them are in use does the count grow. The count is raised before it is
compared with the limit, and stays raised if the comparison fails.
-/
namespace Xrt.Xgq

open Lib

def MAX_CLIENTS : Nat := 128

/-- `struct xocl_xgq_client` with the fields that only attaching and the interrupt look at. -/
structure ClientEntry extends XoclXgqClient where
  client : Nat
  notifySem : Nat
  isUsed : Bool
  deriving DecidableEq, Repr

/-- An entry without commands. -/
def ClientEntry.fresh (client notifySem : Nat) (needResp isUsed : Bool) : ClientEntry where
  submitted := []
  numSubmit := 0
  completed := []
  numComplete := 0
  needResp := needResp
  client := client
  notifySem := notifySem
  isUsed := isUsed

structure ClientTable where
  entries : ClientId → ClientEntry
  numClient : Nat
  /-- `xocl_xgq_fini` has freed the queue. -/
  freed : Bool

namespace ClientTable

variable (xgq : ClientTable)

/-- `kzalloc`. -/
def init : ClientTable where
  entries _ := .fresh 0 0 false false
  numClient := 0
  freed := false

def setEntry (id : ClientId) (entry : ClientEntry) : ClientTable :=
  { xgq with entries := Function.update xgq.entries id entry }

/-- The first entry below the count that is not in use. -/
def firstFree : Option ClientId :=
  (List.finRange MAX_CLIENTS).find? fun id => id.val < xgq.numClient && !(xgq.entries id).isUsed

/-- `none` is `-EINVAL`. -/
def xgqGetNextAvailableEntry : Option ClientId × ClientTable :=
  match xgq.firstFree with
  | some id => (if xgq.numClient ≥ MAX_CLIENTS then none else some id, xgq)
  | none =>
    (if below : xgq.numClient + 1 < MAX_CLIENTS then
        some ⟨xgq.numClient, Nat.lt_of_succ_lt below⟩
      else none,
      { xgq with numClient := xgq.numClient + 1 })

def xoclXgqAttach (client notifySem : Nat) (needResp : Bool) : Int × Option ClientId × ClientTable :=
  if xgq.numClient ≥ MAX_CLIENTS then (-ENOMEM, none, xgq)
  else
    let next := xgq.xgqGetNextAvailableEntry
    match next.1 with
    | none => (-EINVAL, none, next.2)
    | some id =>
      (0, some id, next.2.setEntry id (.fresh client notifySem needResp true))

/-- The last client frees the queue. -/
def xoclXgqDetach (id : ClientId) : ClientTable :=
  let xgq := xgq.setEntry id { xgq.entries id with isUsed := false }
  { xgq with
    freed := decide (∀ id : ClientId, id.val < xgq.numClient → (xgq.entries id).isUsed = false) }

end ClientTable

inductive AttachEvent where
  | attach (client notifySem : Nat) (needResp : Bool)
  | detach (id : ClientId)

/-- There are no calls on a queue that has been freed. -/
def attachStep (xgq : ClientTable) : AttachEvent → Option ClientTable
  | .attach client notifySem needResp =>
    if xgq.freed then none else some (xgq.xoclXgqAttach client notifySem needResp).2.2
  | .detach id => if xgq.freed then none else some (xgq.xoclXgqDetach id)

/-! ### What an attach should do -/

def ClientTable.inUse (xgq : ClientTable) : Finset ClientId :=
  Finset.univ.filter fun id => (xgq.entries id).isUsed = true

/-- An attach succeeds while an entry is free, with an id nobody else has, and changes nothing if
it fails. -/
def AttachRight (xgq : ClientTable) : AttachEvent → Prop
  | .attach client notifySem needResp =>
    xgq.freed = false
      ∧ (xgq.inUse.card < MAX_CLIENTS → (xgq.xoclXgqAttach client notifySem needResp).1 = 0)
      ∧ (∀ id, (xgq.xoclXgqAttach client notifySem needResp).2.1 = some id →
          (xgq.entries id).isUsed = false)
      ∧ ((xgq.xoclXgqAttach client notifySem needResp).1 ≠ 0 →
          (xgq.xoclXgqAttach client notifySem needResp).2.2 = xgq)
  | .detach _ => True

/-- The queue is there, and two entries are not in use. -/
def RoomForTwo (xgq : ClientTable) : AttachEvent → Prop
  | .attach _ _ _ => xgq.freed = false ∧ xgq.inUse.card + 1 < MAX_CLIENTS
  | .detach _ => True

/-- All entries in use are below the count, and the count below the limit. -/
structure ClientTable.Counted (xgq : ClientTable) : Prop where
  below : ∀ id, (xgq.entries id).isUsed = true → id.val < xgq.numClient
  limit : xgq.numClient < MAX_CLIENTS

section Attach

variable {xgq : ClientTable}

theorem counted_init : ClientTable.init.Counted where
  below _ used := nomatch used
  limit := by decide

theorem ClientTable.firstFree_some {id : ClientId} (found : xgq.firstFree = some id) :
    id.val < xgq.numClient ∧ (xgq.entries id).isUsed = false := by
  have holds := List.find?_some found
  simpa using holds

theorem ClientTable.firstFree_none (none : xgq.firstFree = none) {id : ClientId}
    (inside : id.val < xgq.numClient) : (xgq.entries id).isUsed = true := by
  have holds := List.find?_eq_none.mp none id (List.mem_finRange id)
  simpa [inside] using holds

namespace ClientTable.Counted

variable (counted : xgq.Counted)
include counted

/-- With no free entry below the count, the count is the number of entries in use. -/
theorem card_inUse (full : xgq.firstFree = none) : xgq.inUse.card = xgq.numClient := by
  have limit := counted.limit
  have same : xgq.inUse = Finset.Iio ⟨xgq.numClient, limit⟩ := by
    ext id
    rw [inUse, Finset.mem_filter, Finset.mem_Iio, Fin.lt_def]
    constructor
    · exact fun used => counted.below id used.2
    · exact fun inside => ⟨Finset.mem_univ id, firstFree_none full inside⟩
  rw [same, Fin.card_Iio]

/-- With a free entry below it the count is greater. -/
theorem card_inUse_lt {id : ClientId} (found : xgq.firstFree = some id) :
    xgq.inUse.card < xgq.numClient := by
  obtain ⟨inside, free⟩ := firstFree_some found
  have limit := counted.limit
  have smaller : xgq.inUse ⊂ Finset.Iio ⟨xgq.numClient, limit⟩ := by
    refine (Finset.ssubset_iff_of_subset fun other used => ?_).mpr ⟨id, ?_, ?_⟩
    · exact Finset.mem_Iio.mpr (counted.below other (Finset.mem_filter.mp used).2)
    · exact Finset.mem_Iio.mpr inside
    · exact fun used => by simp [inUse, free] at used
  exact (Finset.card_lt_card smaller).trans_eq (Fin.card_Iio _)

theorem setEntry {id : ClientId} (inside : id.val < xgq.numClient) (entry : ClientEntry) :
    (xgq.setEntry id entry).Counted where
  below other used := by
    by_cases same : other = id
    · rw [same]
      exact inside
    · simp only [ClientTable.setEntry, Function.update_of_ne same] at used
      exact counted.below other used
  limit := counted.limit

end ClientTable.Counted

section Cases

variable (client notifySem : Nat) (needResp : Bool)

theorem xoclXgqAttach_reused (limit : xgq.numClient < MAX_CLIENTS) {id : ClientId}
    (found : xgq.firstFree = some id) :
    xgq.xoclXgqAttach client notifySem needResp
      = (0, some id, xgq.setEntry id (.fresh client notifySem needResp true)) := by
  rw [ClientTable.xoclXgqAttach, if_neg (Nat.not_le.mpr limit),
    ClientTable.xgqGetNextAvailableEntry, found]
  simp only [if_neg (Nat.not_le.mpr limit)]

theorem xoclXgqAttach_grown (full : xgq.firstFree = none)
    (below : xgq.numClient + 1 < MAX_CLIENTS) :
    xgq.xoclXgqAttach client notifySem needResp
      = (0, some ⟨xgq.numClient, Nat.lt_of_succ_lt below⟩,
          { xgq with numClient := xgq.numClient + 1 }.setEntry
            ⟨xgq.numClient, Nat.lt_of_succ_lt below⟩ (.fresh client notifySem needResp true)) := by
  rw [ClientTable.xoclXgqAttach, if_neg (Nat.not_le.mpr (Nat.lt_of_succ_lt below)),
    ClientTable.xgqGetNextAvailableEntry, full]
  simp only [dif_pos below]

/-- The attach that reaches the limit: it fails, and the count stays at the limit. -/
theorem xoclXgqAttach_limit (full : xgq.firstFree = none)
    (last : xgq.numClient + 1 = MAX_CLIENTS) :
    xgq.xoclXgqAttach client notifySem needResp
      = (-EINVAL, none, { xgq with numClient := xgq.numClient + 1 }) := by
  rw [ClientTable.xoclXgqAttach, if_neg (by omega), ClientTable.xgqGetNextAvailableEntry, full]
  simp only [dif_neg (Nat.not_lt.mpr last.ge)]

end Cases

theorem ClientTable.Counted.right_iff (counted : xgq.Counted) (e : AttachEvent) :
    AttachRight xgq e ↔ RoomForTwo xgq e := by
  cases e with
  | detach id => exact Iff.rfl
  | attach client notifySem needResp =>
    refine and_congr_right fun _ => ?_
    cases free : xgq.firstFree with
    | some id =>
      have limit := counted.limit
      have fewer := counted.card_inUse_lt free
      rw [xoclXgqAttach_reused client notifySem needResp limit free]
      refine iff_of_true ⟨fun _ => rfl, fun other same => ?_, fun failed => absurd rfl failed⟩
        (by omega)
      rw [← Option.some.inj same]
      exact (firstFree_some free).2
    | none =>
      have card := counted.card_inUse free
      rcases Nat.lt_or_eq_of_le (Nat.succ_le_of_lt counted.limit) with below | last
      · rw [xoclXgqAttach_grown client notifySem needResp free below]
        refine iff_of_true ⟨fun _ => rfl, fun other same => ?_, fun failed => absurd rfl failed⟩
          (by omega)
        rw [← Option.some.inj same, ← Bool.not_eq_true]
        exact fun used => Nat.lt_irrefl _ (counted.below _ used)
      · rw [xoclXgqAttach_limit client notifySem needResp free last]
        refine iff_of_false (fun right => ?_) (by omega)
        have zero : -EINVAL = 0 := right.1 (by omega)
        exact absurd zero (by decide)

theorem ClientTable.Counted.step (counted : xgq.Counted) {e : AttachEvent} {next : ClientTable}
    (room : RoomForTwo xgq e) (stepped : attachStep xgq e = some next) : next.Counted := by
  cases e with
  | detach id =>
    simp only [attachStep] at stepped
    split at stepped
    · cases stepped
    · cases stepped
      refine ⟨fun other used => counted.below other ?_, counted.limit⟩
      by_cases same : other = id
      · simp [xoclXgqDetach, ClientTable.setEntry, same] at used
      · simpa [xoclXgqDetach, ClientTable.setEntry, same] using used
  | attach client notifySem needResp =>
    simp only [attachStep, room.1] at stepped
    cases stepped
    cases free : xgq.firstFree with
    | some id =>
      rw [xoclXgqAttach_reused client notifySem needResp counted.limit free]
      exact counted.setEntry (firstFree_some free).1 _
    | none =>
      have card := counted.card_inUse free
      have below : xgq.numClient + 1 < MAX_CLIENTS := card ▸ room.2
      rw [xoclXgqAttach_grown client notifySem needResp free below]
      have grown : ({ xgq with numClient := xgq.numClient + 1 } : ClientTable).Counted :=
        ⟨fun other used => (counted.below other used).trans (Nat.lt_succ_self _), below⟩
      exact grown.setEntry (Nat.lt_succ_self _) _

/-- The table keeps its promises along a run exactly if no attach finds more than 126 entries in use,
or the queue freed by the last detach. -/
theorem attach_right_iff (es : List AttachEvent) :
    Along attachStep AttachRight .init es ↔ Along attachStep RoomForTwo .init es :=
  along_iff_along (P := ClientTable.Counted) (fun _ _ _ counted room => counted.step room)
    (fun _ e counted => counted.right_iff e) counted_init es

/-- The table after the first clients have attached. -/
def attached (n : Nat) : ClientTable where
  entries id := .fresh 0 0 false (decide (id.val < n))
  numClient := n
  freed := false

theorem attachStep_attached {n : Nat} (below : n + 1 < MAX_CLIENTS) :
    attachStep (attached n) (.attach 0 0 false) = some (attached (n + 1)) := by
  -- the entries below the count are those in use
  have full : (attached n).firstFree = none := by
    refine List.find?_eq_none.mpr fun id _ found => ?_
    obtain ⟨inside, free⟩ := Bool.and_eq_true_iff.mp found
    have used : ((attached n).entries id).isUsed = true := inside
    rw [used] at free
    exact Bool.false_ne_true free
  have entries : Function.update (attached n).entries ⟨n, Nat.lt_of_succ_lt below⟩
      (.fresh 0 0 false true) = (attached (n + 1)).entries := by
    funext id
    by_cases last : id = ⟨n, Nat.lt_of_succ_lt below⟩
    · rw [last]
      simp [attached]
    · have other : id.val ≠ n := fun same => last (Fin.ext same)
      have step : id.val < n ↔ id.val < n + 1 := by omega
      rw [Function.update_of_ne last]
      simp [attached, step]
  change some ((attached n).xoclXgqAttach 0 0 false).2.2 = _
  rw [xoclXgqAttach_grown 0 0 false full below]
  exact congrArg (fun entries => some (ClientTable.mk entries (n + 1) false)) entries

theorem run_attached (k n : Nat) (below : n + k < MAX_CLIENTS) :
    run attachStep (attached n) (List.replicate k (.attach 0 0 false)) = some (attached (n + k)) := by
  induction k generalizing n with
  | zero => rfl
  | succ k ih =>
    rw [List.replicate_succ, run_cons, attachStep_attached (by omega), Option.bind_some,
      ih (n + 1) (by omega), Nat.add_right_comm, Nat.add_assoc]

/-- The 128th client: 127 entries are in use, the attach fails and the count has grown. After two
of the others have left there is still no way to attach. -/
theorem attach_last_fails :
    ((run attachStep .init (List.replicate 127 (.attach 0 0 false))).map fun xgq =>
        (xgq.numClient, (xgq.xoclXgqAttach 0 0 false).1,
          (xgq.xoclXgqAttach 0 0 false).2.2.numClient,
          ((((xgq.xoclXgqAttach 0 0 false).2.2.xoclXgqDetach 0).xoclXgqDetach 1).xoclXgqAttach
            0 0 false).1))
      = some (127, -EINVAL, 128, -ENOMEM) := by
  have start : ClientTable.init = attached 0 := rfl
  rw [start, run_attached 127 0 (by decide)]
  decide +kernel

end Attach

end Xrt.Xgq
