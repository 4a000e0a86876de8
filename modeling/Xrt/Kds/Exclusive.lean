import Xrt.Kds.Counting
import Xrt.Lib.Total

/-!
# Exclusive reservations

While a CU is not exclusively reserved, its `cu_refs` counts the clients whose `refs` entry
is not zero; a client whose 32-bit count has wrapped around is still counted, and `slack`
is the number of such stale counts. As long as there are none, the `refs` entry of a client
covers the reference counts of all its contexts of the CU. An exclusive reservation is given
at `cu_refs = 0`, so it starts with nothing open and no stale count.
-/
namespace Xrt.Kds

open Xrt.Lib Finset

variable {Client : Type*}

/-- The reference counts of a client's contexts of the CU add up to `total`. -/
def CuState.Total (s : CuState Client) (client : Client) (total : Nat) : Prop :=
  HasTotal (fun hwCtx => (s.count client hwCtx).toNat) total

/-- They add up to at most the client's `refs` entry. -/
def CuState.Covered (s : CuState Client) (client : Client) : Prop :=
  ∃ total, s.Total client total ∧ total ≤ (s.cu.refs client).toNat

structure Consistent (slack : Nat) (s : CuState Client) : Prop where
  shared : s.cu.exclusive = false →
    ∃ holders : Finset Client, (∀ client, client ∈ holders ↔ s.cu.refs client ≠ 0) ∧
      holders.card + slack = s.cu.cuRefs.toNat
  reserved : s.cu.exclusive = true → slack = 0 ∧ s.cu.cuRefs = CU_EXCLU_MASK ∧
    ∃ owner, s.cu.refs owner = 1 ∧ ∀ client, client ≠ owner → s.cu.refs client = 0
  covered : slack = 0 → ∀ client, s.Covered client

variable {slack : Nat} {s : CuState Client}

/-! ### Changing one count -/

variable {client other : Client} {t : CuState Client} {kds kds' : KdsSched Client} {cuIdx : Nat}
  {bank : Bank}

theorem CuState.Total.update {total total' : Nat} (has : s.Total client total)
    (hwCtx : Nat) (value : BitVec 32)
    (counts : t.count client = Function.update (s.count client) hwCtx value)
    (balance : total' + (s.count client hwCtx).toNat = total + value.toNat) :
    t.Total client total' := by
  have below := has.le hwCtx
  have updated := HasTotal.update has hwCtx value.toNat
  unfold CuState.Total
  rw [counts]
  convert updated using 1
  · funext other
    exact Function.apply_update (fun _ => BitVec.toNat) (s.count client) hwCtx value other
  · omega

theorem CuState.Total.congr {total : Nat} (has : s.Total client total)
    (counts : t.count client = s.count client) : t.Total client total := by
  unfold CuState.Total
  rw [counts]
  exact has

theorem CuState.Covered.update (covered : s.Covered client) (hwCtx : Nat) (value : BitVec 32)
    (counts : t.count client = Function.update (s.count client) hwCtx value)
    (enough : (s.cu.refs client).toNat + value.toNat ≤
      (t.cu.refs client).toNat + (s.count client hwCtx).toNat) : t.Covered client := by
  obtain ⟨total, has, bound⟩ := covered
  have below := has.le hwCtx
  refine ⟨total - (s.count client hwCtx).toNat + value.toNat, ?_, by omega⟩
  exact has.update hwCtx value counts (by omega)

theorem CuState.Covered.congr (covered : s.Covered client)
    (counts : t.count client = s.count client)
    (refs : (s.cu.refs client).toNat ≤ (t.cu.refs client).toNat) : t.Covered client := by
  obtain ⟨total, has, bound⟩ := covered
  exact ⟨total, has.congr counts, bound.trans refs⟩

theorem CuState.Covered.count_le (covered : s.Covered client) (hwCtx : Nat) :
    (s.count client hwCtx).toNat ≤ (s.cu.refs client).toNat := by
  obtain ⟨total, has, bound⟩ := covered
  exact (has.le hwCtx).trans bound

variable [DecidableEq Client]

theorem setCount_self (count : Client → Nat → BitVec 32) (client : Client) (hwCtx : Nat)
    (value : BitVec 32) :
    setCount count client hwCtx value client = Function.update (count client) hwCtx value := by
  simp [setCount]

theorem setCount_other (count : Client → Nat → BitVec 32) (hwCtx : Nat)
    (value : BitVec 32) (different : other ≠ client) :
    setCount count client hwCtx value other = count other := by
  simp [setCount, different]

/-! ### Each change keeps the relation -/

theorem added_refs_self (cu : Cu Client) (client : Client) (flags : BitVec 32) :
    (cu.added client flags).refs client = cu.refs client + 1 := by
  simp [Cu.added, Cu.setRefs]

theorem added_refs_other (cu : Cu Client) (flags : BitVec 32)
    (different : other ≠ client) : (cu.added client flags).refs other = cu.refs other := by
  simp [Cu.added, Cu.setRefs, different]

theorem deleted_refs_self (cu : Cu Client) (client : Client) :
    (cu.deleted client).refs client = cu.refs client - 1 := by
  simp [Cu.deleted, Cu.setRefs]

theorem deleted_refs_other (cu : Cu Client)
    (different : other ≠ client) : (cu.deleted client).refs other = cu.refs other := by
  simp [Cu.deleted, Cu.setRefs, different]

/-- The condition on an open that takes a share of a CU: the number of sharers stays clear
of the bit that marks an exclusive reservation. -/
def Cu.HasRoom (cu : Cu Client) (client : Client) (flags : BitVec 32) : Prop :=
  sharedFlags flags = true → cu.refs client = 0 → cu.cuRefs.toNat + 1 < 2 ^ 31

section

variable (consistent : Consistent slack s)
include consistent

theorem Consistent.opened_covered (client : Client) (hwCtx : Nat) (flags : BitVec 32)
    (next : (s.cu.refs client + 1).toNat = (s.cu.refs client).toNat + 1) (noSlack : slack = 0)
    (other : Client) :
    CuState.Covered ⟨s.cu.added client flags,
      setCount s.count client hwCtx (s.count client hwCtx + 1)⟩ other := by
  have covered := consistent.covered noSlack other
  by_cases same : other = client
  · subst same
    apply covered.update hwCtx (s.count other hwCtx + 1) (setCount_self ..)
    rw [added_refs_self, next, BitVec.toNat_add]
    have one : (1 : BitVec 32).toNat = 1 := rfl
    omega
  · apply covered.congr (setCount_other _ _ _ same)
    rw [added_refs_other _ _ same]

variable {flags : BitVec 32}

theorem Consistent.opened_shared (client : Client) (hwCtx : Nat)
    (next : (s.cu.refs client + 1).toNat = (s.cu.refs client).toNat + 1)
    (free : s.cu.exclusive = false) (share : sharedFlags flags = true)
    (room : s.cu.HasRoom client flags) :
    Consistent slack ⟨s.cu.added client flags,
      setCount s.count client hwCtx (s.count client hwCtx + 1)⟩ := by
  obtain ⟨holders, member, card⟩ := consistent.shared free
  have below := Cu.cuRefs_lt free
  have nonzero : s.cu.refs client + 1 ≠ 0 := by
    intro wrapped
    rw [wrapped] at next
    simp at next
  -- `cu_refs` grows exactly when the client is new among the holders
  have count : (s.cu.added client flags).cuRefs.toNat =
      s.cu.cuRefs.toNat + if s.cu.refs client = 0 then 1 else 0 := by
    simp only [Cu.added, share, if_true]
    split
    next first =>
      exact Nat.mod_eq_of_lt (by change _ + 1 < _; omega)
    · rfl
  have stillFree : ¬ (s.cu.added client flags).exclusive = true := by
    rw [Cu.exclusive_iff, count]
    split
    next first =>
      have := room share first
      omega
    · omega
  refine ⟨fun _ => ⟨insert client holders, ?_, ?_⟩, fun reserved => absurd reserved stillFree, ?_⟩
  · intro other
    by_cases same : other = client
    · subst same
      simpa [added_refs_self] using nonzero
    · simp [added_refs_other _ _ same, same, member]
  · rw [count]
    by_cases first : s.cu.refs client = 0
    · rw [card_insert_of_notMem (by simp [member, first]), if_pos first]
      omega
    · rw [insert_eq_of_mem ((member client).mpr first), if_neg first]
      omega
  · exact consistent.opened_covered client hwCtx flags next

theorem Consistent.opened_exclusive (client : Client) (hwCtx : Nat)
    (next : (s.cu.refs client + 1).toNat = (s.cu.refs client).toNat + 1)
    (free : s.cu.exclusive = false) (share : sharedFlags flags = false)
    (unused : s.cu.cuRefs = 0) :
    Consistent slack ⟨s.cu.added client flags,
      setCount s.count client hwCtx (s.count client hwCtx + 1)⟩ := by
  obtain ⟨holders, member, card⟩ := consistent.shared free
  have mask : (s.cu.added client flags).cuRefs = CU_EXCLU_MASK := by simp [Cu.added, share]
  have isReserved : (s.cu.added client flags).exclusive = true := by
    rw [Cu.exclusive_iff, mask]
    decide
  -- the CU was unused, so nobody held it
  have empty : holders = ∅ ∧ slack = 0 := by
    rw [unused] at card
    have : holders.card + slack = 0 := card
    exact ⟨card_eq_zero.mp (by omega), by omega⟩
  have nobody : ∀ other, s.cu.refs other = 0 := by
    intro other
    by_contra held
    simpa [empty.1] using (member other).mpr held
  refine ⟨fun notReserved => absurd isReserved (by simp [notReserved]), fun _ =>
    ⟨empty.2, mask, client, ?_, ?_⟩, consistent.opened_covered client hwCtx flags next⟩
  · rw [added_refs_self, nobody client]
    rfl
  · intro other different
    rw [added_refs_other _ _ different, nobody other]

theorem Consistent.opened (client : Client) (hwCtx : Nat)
    (small : (s.cu.refs client).toNat < 2 ^ 31)
    (free : s.cu.exclusive = false) (unused : sharedFlags flags = false → s.cu.cuRefs = 0)
    (room : s.cu.HasRoom client flags) :
    Consistent slack ⟨s.cu.added client flags,
      setCount s.count client hwCtx (s.count client hwCtx + 1)⟩ := by
  have next : (s.cu.refs client + 1).toNat = (s.cu.refs client).toNat + 1 := by
    exact Nat.mod_eq_of_lt (by change _ + 1 < _; omega)
  cases share : sharedFlags flags with
  | true => exact consistent.opened_shared client hwCtx next free share room
  | false => exact consistent.opened_exclusive client hwCtx next free share (unused share)

theorem Consistent.lowered (client : Client) (hwCtx : Nat)
    {value : BitVec 32} (lower : value.toNat ≤ (s.count client hwCtx).toNat) :
    Consistent slack ⟨s.cu, setCount s.count client hwCtx value⟩ := by
  refine ⟨consistent.shared, consistent.reserved, fun noSlack other => ?_⟩
  have covered := consistent.covered noSlack other
  by_cases same : other = client
  · subst same
    apply covered.update hwCtx value (setCount_self ..)
    change _ ≤ (s.cu.refs other).toNat + _
    omega
  · exact covered.congr (setCount_other _ _ _ same) le_rfl

theorem Consistent.closed_covered (client : Client)
    (hwCtx : Nat) (last : s.count client hwCtx = 1) (used : 0 < (s.cu.refs client).toNat)
    (noSlack : slack = 0) (other : Client) :
    CuState.Covered ⟨s.cu.deleted client, setCount s.count client hwCtx 0⟩ other := by
  have prev : (s.cu.refs client - 1).toNat = (s.cu.refs client).toNat - 1 := by bv_omega
  have covered := consistent.covered noSlack other
  by_cases same : other = client
  · subst same
    apply covered.update hwCtx 0 (setCount_self ..)
    rw [deleted_refs_self, prev, last]
    have one : (1 : BitVec 32).toNat = 1 := rfl
    have zero : (0 : BitVec 32).toNat = 0 := rfl
    omega
  · apply covered.congr (setCount_other _ _ _ same)
    rw [deleted_refs_other _ same]

end

theorem Cu.deleted_refs_ne_zero_iff {cu : Cu Client}
    (used : 0 < (cu.refs client).toNat) (other : Client) :
    (cu.deleted client).refs other ≠ 0 ↔
      cu.refs other ≠ 0 ∧ ¬ (other = client ∧ cu.refs client = 1) := by
  by_cases same : other = client
  · subst same
    rw [deleted_refs_self]
    constructor
    · intro more
      exact ⟨by bv_omega, fun one => more (by rw [one.2]; rfl)⟩
    · rintro ⟨held, more⟩ none
      exact more ⟨rfl, by bv_omega⟩
  · simp [deleted_refs_other _ same, same]

section

variable (consistent : Consistent slack s)
include consistent

/-- The last close of the context of a client that has the CU for itself: only the owner has a count
to give back, and it is one. -/
theorem Consistent.closed_exclusive (client : Client)
    (hwCtx : Nat) (last : s.count client hwCtx = 1) (used : 0 < (s.cu.refs client).toNat)
    (mark : s.cu.exclusive = true) :
    Consistent slack ⟨s.cu.deleted client, setCount s.count client hwCtx 0⟩ := by
  obtain ⟨noSlack, -, owner, own, others⟩ := consistent.reserved mark
  have isOwner : client = owner := by
    by_contra different
    rw [others client different] at used
    simp at used
  subst isOwner
  have freed : (s.cu.deleted client).cuRefs = 0 := by simp [Cu.deleted, mark]
  have notReserved : ¬ (s.cu.deleted client).exclusive = true := by
    rw [Cu.exclusive_iff, freed]
    decide
  refine ⟨fun _ => ⟨∅, ?_, ?_⟩, fun reserved => absurd reserved notReserved,
    consistent.closed_covered client hwCtx last used⟩
  · intro other
    rw [Cu.deleted_refs_ne_zero_iff used other]
    by_cases same : other = client
    · simp [same, own]
    · simp [others other same]
  · rw [freed, noSlack]
    rfl

/-- The last close of a context on a shared CU: the client leaves the holders when its last count
goes, and `cu_refs` follows. -/
theorem Consistent.closed_shared (client : Client) (hwCtx : Nat)
    (last : s.count client hwCtx = 1) (used : 0 < (s.cu.refs client).toNat)
    (mark : s.cu.exclusive = false) :
    Consistent slack ⟨s.cu.deleted client, setCount s.count client hwCtx 0⟩ := by
  obtain ⟨holders, member, card⟩ := consistent.shared mark
  have below := Cu.cuRefs_lt mark
  have holds : client ∈ holders := (member client).mpr (by bv_omega)
  have positive : 0 < holders.card := card_pos.mpr ⟨client, holds⟩
  have count : (s.cu.deleted client).cuRefs.toNat =
      s.cu.cuRefs.toNat - if s.cu.refs client = 1 then 1 else 0 := by
    simp only [Cu.deleted, mark, Bool.false_eq_true, if_false]
    split
    · bv_omega
    · rfl
  have notReserved : ¬ (s.cu.deleted client).exclusive = true := by
    rw [Cu.exclusive_iff, count]
    omega
  refine ⟨fun _ => ⟨if s.cu.refs client = 1 then holders.erase client else holders, ?_, ?_⟩,
    fun reserved => absurd reserved notReserved,
    consistent.closed_covered client hwCtx last used⟩
  · intro other
    rw [Cu.deleted_refs_ne_zero_iff used other]
    split
    next one => simp [member, one, and_comm]
    next more =>
      rw [member]
      exact (and_iff_left fun both => more both.2).symm
  · rw [count]
    split
    · rw [card_erase_of_mem holds]
      omega
    · omega

theorem Consistent.closed (client : Client) (hwCtx : Nat)
    (last : s.count client hwCtx = 1) (used : 0 < (s.cu.refs client).toNat) :
    Consistent slack ⟨s.cu.deleted client, setCount s.count client hwCtx 0⟩ := by
  cases mark : s.cu.exclusive with
  | true => exact consistent.closed_exclusive client hwCtx last used mark
  | false => exact consistent.closed_shared client hwCtx last used mark

/-- A rejected open of a client whose count has reached the negative range: the increment
stays, and when it wraps around the client is no longer seen as a holder. -/
theorem Consistent.overflowed (client : Client) (big : 2 ^ 31 - 1 ≤ (s.cu.refs client).toNat) :
    ∃ slack', Consistent slack' ⟨s.cu.setRefs client (s.cu.refs client + 1), s.count⟩ := by
  -- in a reserved CU the owner's count is one and all others are zero
  have free : s.cu.exclusive = false := by
    by_contra mark
    obtain ⟨-, -, owner, own, others⟩ := consistent.reserved (by simpa using mark)
    by_cases same : client = owner
    · subst same
      rw [own] at big
      simp at big
    · rw [others client same] at big
      simp at big
  obtain ⟨holders, member, card⟩ := consistent.shared free
  have holds : client ∈ holders := (member client).mpr (by bv_omega)
  by_cases wraps : s.cu.refs client + 1 = 0
  · -- the client leaves the holders, but `cu_refs` still counts it
    refine ⟨slack + 1, fun _ => ⟨holders.erase client, ?_, ?_⟩,
      fun reserved => absurd (reserved : s.cu.exclusive = true) (by simp [free]),
      fun noSlack => by omega⟩
    · intro other
      by_cases same : other = client
      · subst same
        simpa using wraps
      · rw [Cu.setRefs_refs_other _ _ same, mem_erase, member]
        exact and_iff_right same
    · have positive : 0 < holders.card := card_pos.mpr ⟨client, holds⟩
      rw [card_erase_of_mem holds, Cu.setRefs_cuRefs]
      omega
  · refine ⟨slack, fun _ => ⟨holders, ?_, card⟩,
      fun reserved => absurd (reserved : s.cu.exclusive = true) (by simp [free]),
      fun noSlack other => (consistent.covered noSlack other).congr rfl ?_⟩
    · intro other
      by_cases same : other = client
      · subst same
        rw [Cu.setRefs_refs_self]
        exact iff_of_true holds wraps
      · rw [Cu.setRefs_refs_other _ _ same, member]
    · by_cases same : other = client
      · subst same
        rw [Cu.setRefs_refs_self]
        bv_omega
      · rw [Cu.setRefs_refs_other _ _ same]

end

/-! ### Runs of requests -/

omit [DecidableEq Client] in
theorem fresh_consistent (numCus numCdma : Nat) (present : Bank → Nat → Bool) (bank : Bank)
    (idx : Nat) :
    Consistent 0 ((fresh numCus numCdma present : KdsSched Client).state bank idx) where
  shared := fun _ => ⟨∅, by simp [KdsSched.state, fresh], rfl⟩
  reserved := by
    intro reserved
    exact absurd ((Cu.exclusive_iff _).mp reserved) (by simp [KdsSched.state, fresh])
  covered := fun _ client => ⟨0, hasTotal_zero, Nat.zero_le _⟩

/-- The condition on an open: the number of sharers stays below the exclusive bit, and a
request for exclusive use does not find a context that was allocated as shared. -/
def Proper (kds : KdsSched Client) : Request Client → Prop
  | .openCu client hwCtx bank cuIdx flags _ =>
    (kds.cu bank cuIdx).HasRoom client (kds.usedFlags client (bank.key hwCtx cuIdx) flags) ∧
    (sharedFlags flags = false →
      sharedFlags (kds.usedFlags client (bank.key hwCtx cuIdx) flags) = false)
  | .closeCu .. => True

def step (kds : KdsSched Client) (request : Request Client) : Option (KdsSched Client) :=
  some (kds.answer request).2

/-- The counters of every CU are related, with some number of stale counts. -/
def AllConsistent (kds : KdsSched Client) : Prop :=
  ∀ bank idx, ∃ slack, Consistent slack (kds.state bank idx)

theorem openCu_consistent (all : AllConsistent kds)
    {hwCtx : Nat} {flags : BitVec 32} {memory : Bool}
    {ret : Int}
    (room : (kds.cu bank cuIdx).HasRoom client
      (kds.usedFlags client (bank.key hwCtx cuIdx) flags))
    (opened : xoclOpenCuContext kds client (bank.key hwCtx cuIdx) flags memory = (ret, kds')) :
    AllConsistent kds' := by
  obtain ⟨frame, outcome⟩ :=
    xoclOpenCuContext_spec kds client bank hwCtx cuIdx flags memory opened
  intro bank' idx'
  by_cases target : bank' = bank ∧ idx' = cuIdx
  · obtain ⟨rfl, rfl⟩ := target
    obtain ⟨slack, consistent⟩ := all bank' idx'
    rcases outcome with ⟨-, small, free, unused, after⟩ | ⟨-, after | ⟨big, after⟩⟩
    · rw [after]
      exact ⟨slack, consistent.opened client hwCtx small free unused room⟩
    · rw [after]
      exact ⟨slack, consistent⟩
    · rw [after]
      exact consistent.overflowed client big
  · rw [frame bank' idx' target]
    exact all bank' idx'

theorem closeCu_consistent (all : AllConsistent kds) {hwCtx : Nat} {ret : Int}
    (closed : xoclCloseCuContext kds client (bank.key hwCtx cuIdx) = (ret, kds')) :
    AllConsistent kds' := by
  obtain ⟨frame, outcome⟩ := xoclCloseCuContext_spec kds client bank hwCtx cuIdx closed
  intro bank' idx'
  by_cases target : bank' = bank ∧ idx' = cuIdx
  · obtain ⟨rfl, rfl⟩ := target
    obtain ⟨slack, consistent⟩ := all bank' idx'
    rcases outcome with ⟨-, -, after⟩ | ⟨more, -, -, after⟩ | ⟨last, -, after⟩ |
      ⟨last, -, used, -, after⟩
    · rw [after]
      exact ⟨slack, consistent⟩
    · rw [after]
      exact ⟨slack, consistent.lowered client hwCtx (by bv_omega)⟩
    · rw [after]
      exact ⟨slack, consistent.lowered client hwCtx (Nat.zero_le _)⟩
    · rw [after]
      exact ⟨slack, consistent.closed client hwCtx last used⟩
  · rw [frame bank' idx' target]
    exact all bank' idx'

theorem step_consistent {request : Request Client}
    (all : AllConsistent kds) (proper : Proper kds request)
    (stepped : step kds request = some kds') : AllConsistent kds' := by
  cases stepped
  cases request with
  | openCu client hwCtx bank cuIdx flags memory =>
    exact openCu_consistent all proper.1 rfl
  | closeCu client hwCtx bank cuIdx => exact closeCu_consistent all rfl

def KdsSched.HasOpen (kds : KdsSched Client) (bank : Bank) (cuIdx : Nat) (client : Client) :
    Prop :=
  (kds.cu bank cuIdx).refs client ≠ 0 ∨ ∃ hwCtx, kds.refCnt client (bank.key hwCtx cuIdx) ≠ 0

omit [DecidableEq Client] in
theorem not_hasOpen_of_unused (all : AllConsistent kds)
    (unused : (kds.cu bank cuIdx).cuRefs = 0) (client : Client) :
    ¬ kds.HasOpen bank cuIdx client := by
  obtain ⟨slack, consistent⟩ := all bank cuIdx
  have free : (kds.cu bank cuIdx).exclusive = false := by
    simp [Cu.exclusive, unused]
  obtain ⟨holders, member, card⟩ := consistent.shared free
  have total : holders.card + slack = 0 := by
    rw [card]
    exact congrArg BitVec.toNat unused
  have empty : holders = ∅ := card_eq_zero.mp (by omega)
  have notCounted : (kds.cu bank cuIdx).refs client = 0 := by
    by_contra counted
    simpa [empty] using (member client).mpr counted
  rintro (counted | ⟨hwCtx, isOpen⟩)
  · exact counted notCounted
  · have bound := (consistent.covered (by omega) client).count_le hwCtx
    have zero : ((kds.state bank cuIdx).cu.refs client).toNat = 0 := by
      rw [show (kds.state bank cuIdx).cu.refs client = 0 from notCounted]
      rfl
    apply isOpen
    apply BitVec.eq_of_toNat_eq
    exact Nat.le_zero.mp (zero ▸ bound)

/-- Under the condition on every open, a CU with the exclusive bit set is held by exactly
one client, and a request for exclusive use succeeds only if nobody has the CU open. -/
theorem kdsAddContext_exclusive (numCus numCdma : Nat) (present : Bank → Nat → Bool)
    (requests : List (Request Client)) (kds : KdsSched Client)
    (ran : run step (fresh numCus numCdma present) requests = some kds)
    (proper : Along step Proper (fresh numCus numCdma present) requests) :
    (∀ bank idx, (kds.cu bank idx).exclusive = true →
      ∃! client, (kds.cu bank idx).refs client ≠ 0) ∧
    ∀ client hwCtx bank cuIdx flags memory,
      Proper kds (.openCu client hwCtx bank cuIdx flags memory) → sharedFlags flags = false →
      (kds.answer (.openCu client hwCtx bank cuIdx flags memory)).1 = 0 →
      ∀ other, ¬ kds.HasOpen bank cuIdx other := by
  have all : AllConsistent kds := by
    refine run_invariant_along ?_ ?_ proper ran
    · intro before request after allBefore properStep stepped
      exact step_consistent allBefore properStep stepped
    · exact fun bank idx => ⟨0, fresh_consistent numCus numCdma present bank idx⟩
  constructor
  · intro bank idx reserved
    obtain ⟨slack, consistent⟩ := all bank idx
    obtain ⟨-, -, owner, own, others⟩ := consistent.reserved reserved
    refine ⟨owner, ?_, ?_⟩
    · change (kds.state bank idx).cu.refs owner ≠ 0
      simp [own]
    · intro client held
      by_contra different
      exact held (others client different)
  · intro client hwCtx bank cuIdx flags memory properOpen exclusive granted
    obtain ⟨-, outcome⟩ := xoclOpenCuContext_spec kds client bank hwCtx cuIdx flags memory rfl
    rcases outcome with ⟨-, -, -, unused, -⟩ | ⟨failed, -⟩
    · exact not_hasOpen_of_unused all (unused (properOpen.2 exclusive))
    · exact absurd granted failed

/-- Client 0 shares CU 0 and gives it back; then client 1 reserves it. -/
def handedOn : List (Request Nat) :=
  [.openCu 0 0 .cu 0 CU_CTX_SHARED true, .closeCu 0 0 .cu 0,
    .openCu 1 0 .cu 0 CU_CTX_EXCLUSIVE true]

theorem kdsAddContext_exclusive_handedOn :
    ∃ kds, run step (fresh 1 0 fun _ _ => true) handedOn = some kds ∧
      (kds.cu .cu 0).exclusive = true ∧ ∃! client, (kds.cu .cu 0).refs client ≠ 0 := by
  refine ⟨_, rfl, by decide, ?_⟩
  refine (kdsAddContext_exclusive 1 0 (fun _ _ => true) handedOn _ rfl ?_).1 .cu 0 (by decide)
  exact along_cons rfl ⟨fun _ _ => by decide, fun exclusive => absurd exclusive (by decide)⟩
    (along_cons rfl trivial (along_cons rfl ⟨fun _ _ => by decide, fun _ => by decide⟩ trivial))

/-- Clients 0 and 1 share CU 0. The request of client 0 for exclusive use, in the hardware
context that already shares the CU, succeeds. -/
theorem kdsAddContext_exclusive_while_shared :
    ∃ kds : KdsSched Nat,
      run step (fresh 1 0 fun _ _ => true)
        [.openCu 0 0 .cu 0 CU_CTX_SHARED true, .openCu 1 0 .cu 0 CU_CTX_SHARED true] = some kds ∧
      (kds.answer (.openCu 0 0 .cu 0 CU_CTX_EXCLUSIVE true)).1 = 0 ∧
      kds.HasOpen .cu 0 0 ∧ kds.HasOpen .cu 0 1 := by
  exact ⟨_, rfl, by decide, .inl (by decide), .inl (by decide)⟩

end Xrt.Kds
