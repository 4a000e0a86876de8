import Xrt.Kds.Exclusive

/-!
# Balanced opens and closes

Every successful open adds one to the client's `refs` entry, but a close takes it back only
when it is the last one of its CU context. The difference between the `refs` entry and the
reference counts of the client's contexts never shrinks, and it grows exactly when a context
is closed that stays open.
-/
namespace Xrt.Kds

open Lib

variable {Client : Type*} [DecidableEq Client]

/-- The scheduler with the numbers of successful calls for each client and CU context. -/
structure Ledger (Client : Type*) where
  kds : KdsSched Client
  opens : Client → CuKey → Nat
  closes : Client → CuKey → Nat

def tally (calls : Client → CuKey → Nat) (client : Client) (key : CuKey) :
    Client → CuKey → Nat :=
  fun client' key' => if client' = client ∧ key' = key then calls client' key' + 1
    else calls client' key'

/-- A successful request. A request that fails is not part of a run. -/
def Ledger.step (s : Ledger Client) (request : Request Client) : Option (Ledger Client) :=
  let answered := s.kds.answer request
  if answered.1 ≠ 0 then none
  else match request with
    | .openCu client hwCtx bank cuIdx _ _ =>
      some { s with
        kds := answered.2, opens := tally s.opens client (bank.key hwCtx cuIdx) }
    | .closeCu client hwCtx bank cuIdx =>
      some { s with
        kds := answered.2, closes := tally s.closes client (bank.key hwCtx cuIdx) }

def Ledger.fresh (numCus numCdma : Nat) (present : Bank → Nat → Bool) : Ledger Client where
  kds := Kds.fresh numCus numCdma present
  opens := fun _ _ => 0
  closes := fun _ _ => 0

/-- As many closes as opens, for every client and CU context. -/
def Ledger.Balanced (s : Ledger Client) : Prop :=
  ∀ client key, s.closes client key = s.opens client key

/-- All counters of all CUs are zero. -/
def KdsSched.Released (kds : KdsSched Client) : Prop :=
  ∀ bank idx, (kds.cu bank idx).cuRefs = 0 ∧ ∀ client, (kds.cu bank idx).refs client = 0

/-- The number of sharers stays below the exclusive bit. -/
def HasRoom (s : Ledger Client) : Request Client → Prop
  | .openCu client hwCtx bank cuIdx flags _ =>
    (s.kds.cu bank cuIdx).HasRoom client
      (s.kds.usedFlags client (bank.key hwCtx cuIdx) flags)
  | .closeCu .. => True

def ClosesLast (s : Ledger Client) : Request Client → Prop
  | .openCu .. => True
  | .closeCu client hwCtx bank cuIdx => s.kds.refCnt client (bank.key hwCtx cuIdx) = 1

variable {s t : Ledger Client}

/-! ### What a successful request does -/

/-- The changes that a successful request makes to the counters of one CU. `last` and `room`
are the two conditions on the request. -/
inductive Change (last room : Prop) : CuState Client → CuState Client → Prop where
  | none (s : CuState Client) : Change last room s s
  | opened (s : CuState Client) (client : Client) (hwCtx : Nat) (flags : BitVec 32)
      (small : (s.cu.refs client).toNat < 2 ^ 31) (free : s.cu.exclusive = false)
      (unused : sharedFlags flags = false → s.cu.cuRefs = 0)
      (roomy : room → s.cu.HasRoom client flags) :
      Change last room s
        ⟨s.cu.added client flags, setCount s.count client hwCtx (s.count client hwCtx + 1)⟩
  | lowered (s : CuState Client) (client : Client) (hwCtx : Nat)
      (isOpen : s.count client hwCtx ≠ 0) (notLast : ¬ last) :
      Change last room s ⟨s.cu, setCount s.count client hwCtx (s.count client hwCtx - 1)⟩
  | closed (s : CuState Client) (client : Client) (hwCtx : Nat)
      (one : s.count client hwCtx = 1) (used : 0 < (s.cu.refs client).toNat) :
      Change last room s ⟨s.cu.deleted client, setCount s.count client hwCtx 0⟩

theorem Ledger.step_inv {request : Request Client} (stepped : s.step request = some t) :
    s.kds.answer request = (0, t.kds) ∧
    match request with
    | .openCu client hwCtx bank cuIdx _ _ =>
      t.opens = tally s.opens client (bank.key hwCtx cuIdx) ∧ t.closes = s.closes
    | .closeCu client hwCtx bank cuIdx =>
      t.opens = s.opens ∧ t.closes = tally s.closes client (bank.key hwCtx cuIdx) := by
  unfold Ledger.step at stepped
  dsimp only at stepped
  split at stepped
  · cases stepped
  next success =>
    rw [not_not] at success
    cases request <;> cases stepped <;> exact ⟨Prod.ext success rfl, rfl, rfl⟩

theorem Ledger.step_change {request : Request Client} (stepped : s.step request = some t)
    (bank : Bank) (idx : Nat) :
    Change (ClosesLast s request) (HasRoom s request) (s.kds.state bank idx)
      (t.kds.state bank idx) := by
  obtain ⟨answered, -⟩ := Ledger.step_inv stepped
  cases request with
  | openCu client hwCtx bank' cuIdx flags memory =>
    obtain ⟨frame, outcome⟩ :=
      xoclOpenCuContext_spec s.kds client bank' hwCtx cuIdx flags memory answered
    rcases outcome with ⟨-, small, free, unused, after⟩ | ⟨failed, -⟩
    · by_cases target : bank = bank' ∧ idx = cuIdx
      · obtain ⟨rfl, rfl⟩ := target
        rw [after]
        exact .opened _ client hwCtx _ small free unused (fun room => room)
      · rw [frame bank idx target]
        exact .none _
    · exact absurd rfl failed
  | closeCu client hwCtx bank' cuIdx =>
    obtain ⟨frame, outcome⟩ := xoclCloseCuContext_spec s.kds client bank' hwCtx cuIdx answered
    by_cases target : bank = bank' ∧ idx = cuIdx
    · obtain ⟨rfl, rfl⟩ := target
      rcases outcome with ⟨-, failed, -⟩ | ⟨isOpen, more, -, after⟩ | ⟨-, failed, -⟩ |
        ⟨one, -, used, -, after⟩
      · exact absurd rfl failed
      · rw [after]
        exact .lowered _ client hwCtx isOpen (fun last => more last)
      · exact absurd rfl failed
      · rw [after]
        exact .closed _ client hwCtx one used
    · rw [frame bank idx target]
      exact .none _

/-! ### The leak -/

/-- The `refs` entry of the client exceeds the reference counts of its contexts. -/
def CuState.Leaks (s : CuState Client) (client : Client) : Prop :=
  ∃ total, s.Total client total ∧ total < (s.cu.refs client).toNat

/-- The `refs` entry of every client is the sum of the reference counts of its contexts. -/
def CuState.Exact (s : CuState Client) : Prop :=
  ∀ client, s.Total client (s.cu.refs client).toNat

variable {last room : Prop} {before after : CuState Client}

omit [DecidableEq Client] in
theorem CuState.Total.leaks {client : Client} {total : Nat} (has : before.Total client total)
    (hwCtx : Nat) (value : BitVec 32)
    (counts : after.count client = Function.update (before.count client) hwCtx value)
    (excess : total + value.toNat <
      (after.cu.refs client).toNat + (before.count client hwCtx).toNat) : after.Leaks client := by
  have below := has.le hwCtx
  refine ⟨total + value.toNat - (before.count client hwCtx).toNat, ?_, by omega⟩
  exact has.update hwCtx value counts (Nat.sub_add_cancel (by omega))

theorem Change.exact (change : Change last room before after) (isLast : last)
    (exactBefore : before.Exact) : after.Exact := by
  intro other
  have has := exactBefore other
  cases change with
  | none => exact has
  | lowered client hwCtx isOpen notLast => exact absurd isLast notLast
  | opened client hwCtx flags small free unused roomy =>
    by_cases same : other = client
    · subst same
      have below := has.le hwCtx
      refine has.update hwCtx _ (setCount_self ..) ?_
      rw [added_refs_self]
      bv_omega
    · rw [added_refs_other _ _ same]
      exact has.congr (setCount_other _ _ _ same)
  | closed client hwCtx one used =>
    by_cases same : other = client
    · subst same
      refine has.update hwCtx _ (setCount_self ..) ?_
      rw [deleted_refs_self, one]
      bv_omega
    · rw [deleted_refs_other _ same]
      exact has.congr (setCount_other _ _ _ same)

theorem Change.leaks (change : Change last room before after) {client : Client}
    (leak : before.Leaks client) : after.Leaks client := by
  obtain ⟨total, has, lost⟩ := leak
  cases change with
  | none => exact ⟨total, has, lost⟩
  | opened opener hwCtx flags small free unused roomy =>
    by_cases same : client = opener
    · subst same
      apply has.leaks hwCtx _ (setCount_self ..)
      rw [added_refs_self]
      bv_omega
    · exact ⟨total, has.congr (setCount_other _ _ _ same), by rwa [added_refs_other _ _ same]⟩
  | lowered closer hwCtx isOpen notLast =>
    by_cases same : client = closer
    · subst same
      apply has.leaks hwCtx _ (setCount_self ..)
      bv_omega
    · exact ⟨total, has.congr (setCount_other _ _ _ same), lost⟩
  | closed closer hwCtx one used =>
    by_cases same : client = closer
    · subst same
      apply has.leaks hwCtx _ (setCount_self ..)
      rw [deleted_refs_self, one]
      bv_omega
    · exact ⟨total, has.congr (setCount_other _ _ _ same), by rwa [deleted_refs_other _ same]⟩

theorem lowered_leaks (exactBefore : before.Exact) (client : Client) (hwCtx : Nat)
    (isOpen : before.count client hwCtx ≠ 0) :
    CuState.Leaks ⟨before.cu, setCount before.count client hwCtx (before.count client hwCtx - 1)⟩
      client := by
  -- the `refs` entry was exact, and one reference less is left to cover
  apply (exactBefore client).leaks hwCtx _ (setCount_self ..)
  bv_omega

theorem Change.consistent (change : Change last room before after) (hasRoom : room)
    (consistent : Consistent 0 before) : Consistent 0 after := by
  cases change with
  | none => exact consistent
  | opened client hwCtx flags small free unused roomy =>
    exact consistent.opened client hwCtx small free unused (roomy hasRoom)
  | lowered client hwCtx isOpen notLast =>
    exact consistent.lowered client hwCtx (by bv_omega)
  | closed client hwCtx one used => exact consistent.closed client hwCtx one used

/-! ### The tally -/

/-- The reference count of a context is the number of its opens minus that of its closes. -/
def Ledger.Tallied (s : Ledger Client) : Prop :=
  ∀ bank idx client hwCtx, (s.kds.state bank idx).count client hwCtx +
      BitVec.ofNat 32 (s.closes client (bank.key hwCtx idx)) =
    BitVec.ofNat 32 (s.opens client (bank.key hwCtx idx))

theorem setCount_apply (count : Client → Nat → BitVec 32) (client other : Client)
    (hwCtx hwCtx' : Nat) (value : BitVec 32) :
    setCount count client hwCtx value other hwCtx' =
      if other = client ∧ hwCtx' = hwCtx then value else count other hwCtx' := by
  by_cases same : other = client
  · subst same
    rw [setCount_self]
    by_cases sameHw : hwCtx' = hwCtx
    · simp [sameHw]
    · simp [sameHw]
  · rw [setCount_other _ _ _ same, if_neg (fun both => same both.1)]

theorem tally_apply (calls : Client → CuKey → Nat) (client other : Client) (bank bank' : Bank)
    (hwCtx hwCtx' idx idx' : Nat) :
    tally calls client (bank.key hwCtx idx) other (bank'.key hwCtx' idx') =
      calls other (bank'.key hwCtx' idx') +
        if (bank' = bank ∧ idx' = idx) ∧ other = client ∧ hwCtx' = hwCtx then 1 else 0 := by
  unfold tally
  by_cases same : other = client ∧ bank'.key hwCtx' idx' = bank.key hwCtx idx
  · obtain ⟨sameBank, sameIdx, sameHw⟩ := Bank.key_inj same.2
    simp [same.1, sameBank, sameIdx, sameHw]
  · rw [if_neg same, if_neg]
    · rfl
    · rintro ⟨⟨rfl, rfl⟩, rfl, rfl⟩
      exact same ⟨rfl, rfl⟩

theorem Ledger.step_tallied {request : Request Client} (tallied : s.Tallied)
    (stepped : s.step request = some t) : t.Tallied := by
  obtain ⟨answered, calls⟩ := Ledger.step_inv stepped
  intro bank idx other hwCtx'
  have old := tallied bank idx other hwCtx'
  cases request with
  | openCu client hwCtx bank' cuIdx flags memory =>
    obtain ⟨frame, outcome⟩ :=
      xoclOpenCuContext_spec s.kds client bank' hwCtx cuIdx flags memory answered
    rw [calls.1, calls.2, tally_apply]
    rcases outcome with ⟨-, -, -, -, after⟩ | ⟨failed, -⟩
    · by_cases target : bank = bank' ∧ idx = cuIdx
      · obtain ⟨rfl, rfl⟩ := target
        simp only [after, setCount_apply, and_self, true_and]
        split
        next same =>
          obtain ⟨rfl, rfl⟩ := same
          bv_omega
        · exact old
      · rw [frame bank idx target, if_neg (fun both => target both.1)]
        exact old
    · exact absurd rfl failed
  | closeCu client hwCtx bank' cuIdx =>
    obtain ⟨frame, outcome⟩ := xoclCloseCuContext_spec s.kds client bank' hwCtx cuIdx answered
    rw [calls.1, calls.2, tally_apply]
    by_cases target : bank = bank' ∧ idx = cuIdx
    · obtain ⟨rfl, rfl⟩ := target
      -- either way the count goes down by one
      have lowered : (t.kds.state bank idx).count = setCount (s.kds.state bank idx).count client
          hwCtx ((s.kds.state bank idx).count client hwCtx - 1) := by
        rcases outcome with ⟨-, failed, -⟩ | ⟨-, -, -, after⟩ | ⟨-, failed, -⟩ |
          ⟨one, -, -, -, after⟩
        · exact absurd rfl failed
        · rw [after]
        · exact absurd rfl failed
        · rw [after, one]
          rfl
      simp only [lowered, setCount_apply, and_self, true_and]
      split
      next same =>
        obtain ⟨rfl, rfl⟩ := same
        bv_omega
      · exact old
    · rw [frame bank idx target, if_neg (fun both => target both.1)]
      exact old

/-! ### Runs of successful requests -/

def LeakFree (kds : KdsSched Client) : Prop :=
  ∀ bank idx client, ¬ (kds.state bank idx).Leaks client

theorem leakFree_iff_closesLast (numCus numCdma : Nat) (present : Bank → Nat → Bool)
    (requests : List (Request Client))
    (ran : run Ledger.step (Ledger.fresh numCus numCdma present) requests = some s) :
    LeakFree s.kds ↔
      Along Ledger.step ClosesLast (Ledger.fresh numCus numCdma present) requests := by
  apply run_good_iff_along (P := fun s => ∀ bank idx, (s.kds.state bank idx).Exact) _ _ _ _ _ ran
  · intro before request after exactBefore last stepped bank idx
    exact (Ledger.step_change stepped bank idx).exact last (exactBefore bank idx)
  · rintro before exactBefore bank idx client ⟨total, has, lost⟩
    have same := HasTotal.unique has (exactBefore bank idx client)
    omega
  · -- a close that is not the last one leaks, whatever it closes
    intro before request after exactBefore notLast stepped leakFree
    obtain ⟨answered, -⟩ := Ledger.step_inv stepped
    cases request with
    | openCu => exact notLast trivial
    | closeCu client hwCtx bank cuIdx =>
      obtain ⟨-, outcome⟩ := xoclCloseCuContext_spec before.kds client bank hwCtx cuIdx answered
      apply leakFree bank cuIdx client
      rcases outcome with ⟨-, failed, -⟩ | ⟨isOpen, -, -, now⟩ | ⟨-, failed, -⟩ | ⟨one, -⟩
      · exact absurd rfl failed
      · rw [now]
        exact lowered_leaks (exactBefore bank cuIdx) client hwCtx isOpen
      · exact absurd rfl failed
      · exact absurd one notLast
  · intro before request after leaky stepped leakFree
    apply leaky
    intro bank idx client leak
    exact leakFree bank idx client ((Ledger.step_change stepped bank idx).leaks leak)
  · intro bank idx client
    exact hasTotal_zero

omit [DecidableEq Client] in
theorem Consistent.released {cu : CuState Client} (consistent : Consistent 0 cu)
    (closed : ∀ client hwCtx, cu.count client hwCtx = 0) (leakFree : ∀ client, ¬ cu.Leaks client) :
    cu.cu.cuRefs = 0 ∧ ∀ client, cu.cu.refs client = 0 := by
  have noRefs : ∀ client, cu.cu.refs client = 0 := by
    intro client
    have has : cu.Total client 0 := by
      unfold CuState.Total
      simp only [closed]
      exact hasTotal_zero
    by_contra counted
    exact leakFree client ⟨0, has, by bv_omega⟩
  refine ⟨?_, noRefs⟩
  cases mark : cu.cu.exclusive with
  | true =>
    obtain ⟨-, -, owner, own, -⟩ := consistent.reserved mark
    rw [noRefs owner] at own
    exact absurd own (by decide)
  | false =>
    obtain ⟨holders, member, card⟩ := consistent.shared mark
    have empty : holders = ∅ := by
      apply Finset.eq_empty_of_forall_notMem
      intro client holds
      exact (member client).mp holds (noRefs client)
    rw [empty, Finset.card_empty] at card
    apply BitVec.eq_of_toNat_eq
    exact card.symm

theorem KdsSched.Released.exclusive_add {kds : KdsSched Client} (released : kds.Released)
    (client : Client) {bank : Bank} {idx : Nat} (inRange : idx < MAX_CUS)
    (there : (kds.cu bank idx).present = true) :
    (kdsAddCuContext (kds.cu bank idx) idx client CU_CTX_EXCLUSIVE).1 = 0 := by
  obtain ⟨unused, noRefs⟩ := released bank idx
  have bound : ¬ (idx ≥ MAX_CUS ∨ (kds.cu bank idx).present = false) := by
    simp [there, inRange]
  have free : (kds.cu bank idx).exclusive = false := by simp [Cu.exclusive, unused]
  have flags : sharedFlags CU_CTX_EXCLUSIVE = false := by decide
  simp [kdsAddCuContext, bound, kdsTestAndRefcntIncr, noRefs, free, flags, unused]

/-- After as many successful closes as successful opens of every context, all counters are
zero again exactly if no close left its context open; and then every client can reserve
every CU. -/
theorem kdsContext_balanced_iff (numCus numCdma : Nat) (present : Bank → Nat → Bool)
    (requests : List (Request Client)) (s : Ledger Client)
    (ran : run Ledger.step (Ledger.fresh numCus numCdma present) requests = some s)
    (room : Along Ledger.step HasRoom (Ledger.fresh numCus numCdma present) requests)
    (balanced : s.Balanced) :
    (s.kds.Released ↔
      Along Ledger.step ClosesLast (Ledger.fresh numCus numCdma present) requests) ∧
    (s.kds.Released → ∀ client bank idx, idx < MAX_CUS → (s.kds.cu bank idx).present = true →
      (kdsAddCuContext (s.kds.cu bank idx) idx client CU_CTX_EXCLUSIVE).1 = 0) := by
  have tallied : s.Tallied := by
    refine run_invariant (fun before request after tallied stepped => ?_) ?_ ran
    · exact Ledger.step_tallied tallied stepped
    · exact fun _ _ _ _ => rfl
  have closed : ∀ bank idx client hwCtx, (s.kds.state bank idx).count client hwCtx = 0 := by
    intro bank idx client hwCtx
    have counted := tallied bank idx client hwCtx
    rw [balanced] at counted
    bv_omega
  have consistent : ∀ bank idx, Consistent 0 (s.kds.state bank idx) := by
    refine run_invariant_along
      (P := fun s => ∀ bank idx, Consistent 0 (s.kds.state bank idx)) ?_ ?_ room ran
    · intro before request after all hasRoom stepped bank idx
      exact (Ledger.step_change stepped bank idx).consistent hasRoom (all bank idx)
    · exact fun bank idx => fresh_consistent numCus numCdma present bank idx
  refine ⟨?_, fun released client bank idx inRange there =>
    released.exclusive_add client inRange there⟩
  rw [← leakFree_iff_closesLast numCus numCdma present requests ran]
  constructor
  · rintro released bank idx client ⟨total, -, lost⟩
    rw [show (s.kds.state bank idx).cu.refs client = 0 from (released bank idx).2 client] at lost
    exact Nat.not_lt_zero _ lost
  · intro leakFree bank idx
    exact (consistent bank idx).released (closed bank idx) (leakFree bank idx)

/-- Client 0 opens and closes CU 0 twice, one after the other. -/
def inTurn : List (Request Nat) :=
  [.openCu 0 0 .cu 0 CU_CTX_SHARED true, .closeCu 0 0 .cu 0,
    .openCu 0 0 .cu 0 CU_CTX_SHARED true, .closeCu 0 0 .cu 0]

theorem kdsContext_balanced_inTurn :
    ∃ s, run Ledger.step (Ledger.fresh 1 0 fun _ _ => true) inTurn = some s ∧ s.kds.Released := by
  refine ⟨_, rfl, (kdsContext_balanced_iff 1 0 (fun _ _ => true) inTurn _ rfl ?_ ?_).1.mpr ?_⟩
  · exact along_cons rfl (fun _ _ => by decide) (along_cons rfl trivial
      (along_cons rfl (fun _ _ => by decide) (along_cons rfl trivial trivial)))
  · exact fun _ _ => rfl
  · exact along_cons rfl trivial (along_cons rfl rfl
      (along_cons rfl trivial (along_cons rfl rfl trivial)))

/-- Client 0 opens CU 0 twice through one context and closes it twice: a reference of the
client and of the CU is left. -/
def nested : List (Request Nat) :=
  [.openCu 0 0 .cu 0 CU_CTX_SHARED true, .openCu 0 0 .cu 0 CU_CTX_SHARED true,
    .closeCu 0 0 .cu 0, .closeCu 0 0 .cu 0]

theorem kdsContext_nested_not_released :
    ∃ s, run Ledger.step (Ledger.fresh 1 0 fun _ _ => true) nested = some s ∧ s.Balanced ∧
      (s.kds.cu .cu 0).refs 0 = 1 ∧ (s.kds.cu .cu 0).cuRefs = 1 ∧
      (s.kds.answer (.openCu 1 0 .cu 0 CU_CTX_EXCLUSIVE true)).1 ≠ 0 := by
  exact ⟨_, rfl, fun _ _ => rfl, by decide, by decide, by decide⟩

end Xrt.Kds
