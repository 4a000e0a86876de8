import Xrt.Kds.Context

/-!
# Opening a legacy context

`xocl_add_context`: the first open of a client allocates its context, locks the bitstream and makes
the hardware context 0; every open adds a CU context. The two share their clean-up labels, which
undo what a first open has done, and which read the CU context after it may have been freed.
-/
namespace Xrt.Kds

variable {Client : Type*} [DecidableEq Client]

inductive MemFault where
  | nullPointer
  | useAfterFree
  deriving DecidableEq, Repr

/-- `struct kds_client_hw_ctx`; `ptr` is its address, and of its two lists there are the lengths. -/
structure HwCtx where
  ptr : Nat
  hwCtxIdx : BitVec 32
  slotIdx : BitVec 32
  xclbinId : Nat
  cuCtxs : Nat
  graphs : Nat
  deriving DecidableEq, Repr

/-- `struct kds_client_cu_ctx` of the list of a legacy context. -/
structure LegacyCuCtx extends CuCtx where
  cuDomain : BitVec 32
  cuIdx : BitVec 32
  hwCtx : Option Nat
  deriving DecidableEq, Repr

/-- `struct kds_client_ctx`. -/
structure LegacyCtx where
  xclbinId : Nat
  cuCtxList : List LegacyCuCtx
  deriving DecidableEq, Repr

/-- A client; `locks` counts the bitstream locks that are held for the slot. -/
structure LegacyClient (Client : Type*) where
  ctx : Option LegacyCtx
  hwCtxList : List HwCtx
  nextHwCtxId : BitVec 32
  locks : Nat
  kds : KdsSched Client

/-- `struct drm_xocl_ctx`, with the answers of the allocator and of the bitstream lock. `hwCtxPtr` is
the address of a new hardware context, if there is memory for it and its statistics. -/
structure AddRequest where
  xclbinId : Nat
  cuIndex : BitVec 32
  flags : BitVec 32
  ctxMemory : Bool
  lockErr : Int
  uuidMemory : Bool
  hwCtxPtr : Option Nat
  cuCtxMemory : Bool
  deriving DecidableEq, Repr

def XOCL_CTX_EXCLUSIVE : BitVec 32 := 1
def DEFAULT_PL_PS_SLOT : BitVec 32 := 0
def getDomain (idx : BitVec 32) : BitVec 32 := (idx &&& 0xFFFF0000) >>> 16
def getDomainIdx (idx : BitVec 32) : BitVec 32 := idx &&& 0xFFFF

def CuDomain.ofNumber (domain : BitVec 32) : CuDomain :=
  if domain = 0xFFFF then .virt else if domain = 0 then .pl else if domain = 1 then .ps else .unknown

/-- `xocl_ctx_to_info`, as a new CU context would have it. -/
def AddRequest.info (req : AddRequest) : LegacyCuCtx where
  flags := if req.flags = XOCL_CTX_EXCLUSIVE then CU_CTX_EXCLUSIVE else CU_CTX_SHARED
  refCnt := 0
  cuDomain := getDomain req.cuIndex
  cuIdx := getDomainIdx req.cuIndex
  hwCtx := none

def LegacyCuCtx.same (info cuCtx : LegacyCuCtx) : Bool :=
  cuCtx.cuIdx = info.cuIdx && cuCtx.cuDomain = info.cuDomain

namespace LegacyClient

variable (s : LegacyClient Client)

def kdsGetHwCtxById (id : BitVec 32) : Option HwCtx := s.hwCtxList.find? (·.hwCtxIdx = id)

def kdsAllocHwCtx (xclbinId : Nat) (slotIdx : BitVec 32) (ptr : Option Nat) :
    Option (LegacyClient Client) :=
  ptr.map fun ptr => { s with
    hwCtxList := s.hwCtxList ++ [⟨ptr, s.nextHwCtxId, slotIdx, xclbinId, 0, 0⟩]
    nextHwCtxId := s.nextHwCtxId + 1 }

/-- A hardware context with open CUs or graphs stays, and so does everything without one. -/
def kdsFreeHwCtx (hwCtx : Option Nat) : Except MemFault (LegacyClient Client) :=
  match hwCtx with
  | none => .ok s
  | some ptr =>
    match s.hwCtxList.find? (·.ptr = ptr) with
    | none => .error .useAfterFree
    | some found =>
      if found.cuCtxs ≠ 0 ∨ found.graphs ≠ 0 then .ok s
      else .ok { s with hwCtxList := s.hwCtxList.eraseP (·.ptr = ptr) }

/-- The CU context that is there already, whatever its flags, or a new one at the end. -/
def kdsAllocCuCtx (ctx : LegacyCtx) (info : LegacyCuCtx) (memory : Bool) :
    Option (LegacyCuCtx × List LegacyCuCtx) :=
  match ctx.cuCtxList.find? info.same with
  | some cuCtx => some (cuCtx, ctx.cuCtxList)
  | none => if memory then some (info, ctx.cuCtxList ++ [info]) else none

/-- The labels `out_cu_ctx` to `out`. A CU context without references is freed first, and its field
`hw_ctx` read then. -/
def cleanUp (cuCtx : LegacyCuCtx) (ret : Int) (bitstreamLocked : Bool) :
    Except MemFault (Int × LegacyClient Client) :=
  if cuCtx.refCnt = 0 then .error .useAfterFree
  else do
    let s ← s.kdsFreeHwCtx cuCtx.hwCtx
    .ok (ret, { s with ctx := none, locks := if bitstreamLocked then s.locks - 1 else s.locks })

/-- The part of `xocl_add_context` that every open goes through. -/
def addCuCtx (client : Client) (ctx : LegacyCtx) (req : AddRequest) (bitstreamLocked : Bool) :
    Except MemFault (Int × LegacyClient Client) :=
  match kdsAllocCuCtx ctx req.info req.cuCtxMemory with
  -- the label `out_hw_ctx` reads `cu_ctx->hw_ctx`
  | none => .error .nullPointer
  | some (cuCtx, cuCtxList) =>
    match s.kdsGetHwCtxById 0 with
    | none => s.cleanUp cuCtx (-EINVAL) bitstreamLocked
    | some hwCtx =>
      let cuCtx := { cuCtx with hwCtx := some hwCtx.ptr }
      let key : CuKey := ⟨0, .ofNumber cuCtx.cuDomain, cuCtx.cuIdx.toNat⟩
      let added := addByDomain s.kds client key cuCtx.toCuCtx
      let s := { s with kds := added.2 }
      if added.1 ≠ 0 then s.cleanUp cuCtx added.1 bitstreamLocked
      else
        let cuCtx := { cuCtx with refCnt := cuCtx.refCnt + 1 }
        let list := cuCtxList.map fun other => if req.info.same other then cuCtx else other
        .ok (0, { s with ctx := some { ctx with cuCtxList := list } })

def xoclAddContext (client : Client) (req : AddRequest) : Except MemFault (Int × LegacyClient Client) :=
  match s.ctx with
  | some ctx => s.addCuCtx client ctx req false
  | none =>
    if req.ctxMemory = false then .ok (-ENOMEM, s)
    else if req.lockErr ≠ 0 then .ok (req.lockErr, s)
    else
      let s := { s with locks := s.locks + 1 }
      -- the label `out` does not unlock the bitstream
      if req.uuidMemory = false then .ok (-ENOMEM, s)
      else
        let s := { s with nextHwCtxId := 0 }
        match s.kdsAllocHwCtx req.xclbinId DEFAULT_PL_PS_SLOT req.hwCtxPtr with
        | none => .ok (-EINVAL, { s with locks := s.locks - 1 })
        | some s =>
          let ctx : LegacyCtx := ⟨req.xclbinId, []⟩
          { s with ctx := some ctx }.addCuCtx client ctx req true

/-! ### What a failed open leaves -/

/-- The legacy context, the default hardware context and the locks. -/
def legacy : Option LegacyCtx × Option HwCtx × Nat := (s.ctx, s.kdsGetHwCtxById 0, s.locks)

/-- The call returns, and with an error it has changed nothing of the legacy context. -/
def Atomic : Except MemFault (Int × LegacyClient Client) → Prop
  | .ok (ret, s') => ret ≠ 0 → s'.legacy = s.legacy
  | .error _ => False

def Succeeds (result : Except MemFault (Int × LegacyClient Client)) : Prop := ∃ s', result = .ok (0, s')

/-- A first open that fails before it has anything to undo but the lock and the id: the context, the
bitstream lock or the hardware context is refused. -/
def FailsEarly (req : AddRequest) : Prop :=
  s.ctx = none ∧ (req.ctxMemory = false ∨ req.lockErr ≠ 0
    ∨ req.uuidMemory = true ∧ req.hwCtxPtr = none)

omit [DecidableEq Client] in
theorem cleanUp_cases (cuCtx : LegacyCuCtx) (ret : Int) (bitstreamLocked : Bool) :
    (∃ fault, s.cleanUp cuCtx ret bitstreamLocked = .error fault)
      ∨ cuCtx.refCnt ≠ 0 ∧ ∃ s', s.cleanUp cuCtx ret bitstreamLocked = .ok (ret, s') ∧ s'.ctx = none := by
  rw [cleanUp]
  by_cases unused : cuCtx.refCnt = 0
  · rw [if_pos unused]
    exact .inl ⟨_, rfl⟩
  · rw [if_neg unused]
    cases s.kdsFreeHwCtx cuCtx.hwCtx with
    | error fault => exact .inl ⟨fault, rfl⟩
    | ok freed => exact .inr ⟨unused, _, rfl, rfl⟩

/-- An open succeeds or faults, unless the CU was open before: then an error takes the whole context
away. -/
theorem addCuCtx_cases (client : Client) (ctx : LegacyCtx) (req : AddRequest)
    (bitstreamLocked : Bool) :
    Succeeds (s.addCuCtx client ctx req bitstreamLocked)
      ∨ (∃ fault, s.addCuCtx client ctx req bitstreamLocked = .error fault)
      ∨ ctx.cuCtxList ≠ [] ∧ ∃ ret s', ret ≠ 0
        ∧ s.addCuCtx client ctx req bitstreamLocked = .ok (ret, s') ∧ s'.ctx = none := by
  rw [addCuCtx]
  split
  · exact .inr (.inl ⟨_, rfl⟩)
  next cuCtx cuCtxList allocated =>
    -- a CU context with references was in the list
    have listed : cuCtx.refCnt ≠ 0 → ctx.cuCtxList ≠ [] := by
      intro used empty
      simp only [kdsAllocCuCtx, empty, List.find?_nil] at allocated
      split_ifs at allocated
      cases allocated
      exact used rfl
    split
    · rcases s.cleanUp_cases cuCtx (-EINVAL) bitstreamLocked with fault | ⟨used, s', returned, dropped⟩
      · exact .inr (.inl fault)
      · exact .inr (.inr ⟨listed used, _, s', by decide, returned, dropped⟩)
    next hwCtx _ =>
      simp only
      split_ifs with failed
      · rcases cleanUp_cases _ _ _ bitstreamLocked with fault | ⟨used, s', returned, dropped⟩
        · exact .inr (.inl fault)
        · exact .inr (.inr ⟨listed used, _, s', failed, returned, dropped⟩)
      · exact .inl ⟨_, rfl⟩

/-- A later open is never undone: it succeeds, faults, or loses the context. -/
theorem addCuCtx_not_atomic (client : Client) {ctx : LegacyCtx} (opened : s.ctx = some ctx)
    (req : AddRequest) :
    s.Atomic (s.addCuCtx client ctx req false) ↔ Succeeds (s.addCuCtx client ctx req false) := by
  rcases s.addCuCtx_cases client ctx req false with
    ⟨s', returned⟩ | ⟨fault, faulted⟩ | ⟨-, ret, s', nonzero, returned, dropped⟩
  · rw [returned]
    exact iff_of_true (fun nonzero => absurd rfl nonzero) ⟨s', rfl⟩
  · rw [faulted]
    exact iff_of_false id (fun ⟨_, returned⟩ => nomatch returned)
  · rw [returned]
    refine iff_of_false (fun atomic => ?_) (fun ⟨_, zero⟩ => ?_)
    · have same := congrArg Prod.fst (atomic nonzero)
      cases dropped.symm.trans (same.trans opened)
    · cases zero
      exact nonzero rfl

/-- What is left of a first open once it has its hardware context succeeds or faults. -/
theorem addCuCtx_first (client : Client) (before : LegacyClient Client) (xclbinId : Nat)
    (req : AddRequest) :
    before.Atomic (s.addCuCtx client ⟨xclbinId, []⟩ req true)
      ↔ Succeeds (s.addCuCtx client ⟨xclbinId, []⟩ req true) := by
  rcases s.addCuCtx_cases client ⟨xclbinId, []⟩ req true with
    ⟨s', returned⟩ | ⟨fault, faulted⟩ | ⟨listed, -⟩
  · rw [returned]
    exact iff_of_true (fun nonzero => absurd rfl nonzero) ⟨s', rfl⟩
  · rw [faulted]
    exact iff_of_false id (fun ⟨_, returned⟩ => nomatch returned)
  · exact absurd rfl listed

/-- An open that fails leaves the legacy context as it was exactly if it is a first open that is
refused its context, the bitstream lock or its hardware context. -/
theorem xoclAddContext_atomic_iff (s : LegacyClient Client) (client : Client) (req : AddRequest) :
    s.Atomic (s.xoclAddContext client req)
      ↔ Succeeds (s.xoclAddContext client req) ∨ s.FailsEarly req := by
  rw [xoclAddContext, FailsEarly]
  split
  next ctx opened =>
    rw [s.addCuCtx_not_atomic client opened req]
    simp [opened]
  next first =>
    split_ifs with ctxMemory lockErr uuidMemory
    · exact iff_of_true (fun _ => rfl) (.inr ⟨first, .inl ctxMemory⟩)
    · exact iff_of_true (fun _ => rfl) (.inr ⟨first, .inr (.inl lockErr)⟩)
    · -- the lock is left
      refine iff_of_false (fun atomic => ?_) ?_
      · have locks := congrArg (·.2.2) (atomic (by decide))
        exact absurd locks (Nat.succ_ne_self s.locks)
      · rintro (⟨s', returned⟩ | ⟨-, early⟩)
        · cases returned
        · simp [ctxMemory, lockErr, uuidMemory] at early
    · cases req.hwCtxPtr with
      | none =>
        refine iff_of_true (fun _ => ?_) (.inr ⟨first, .inr (.inr ⟨by simpa using uuidMemory, rfl⟩)⟩)
        rfl
      | some ptr =>
        have late : ¬ (s.ctx = none ∧ (req.ctxMemory = false ∨ req.lockErr ≠ 0
            ∨ req.uuidMemory = true ∧ some ptr = none)) := by
          simp [ctxMemory, lockErr]
        rw [or_iff_left late]
        exact addCuCtx_first _ client s req.xclbinId req

/-- A client that has CU 0 to itself, with its context and hardware context. -/
def exclusiveClient : LegacyClient Unit where
  ctx := some ⟨7, [⟨⟨CU_CTX_EXCLUSIVE, 1⟩, 0, 0, some 1⟩]⟩
  hwCtxList := [⟨1, 0, 0, 7, 0, 0⟩]
  nextHwCtxId := 1
  locks := 1
  kds :=
    { numCus := 1
      numCdma := 0
      cu := fun _ _ => ⟨true, CU_EXCLU_MASK, fun _ => 1⟩
      cuCtx := fun _ _ => none }

/-- It asks for CU 0 again: the error takes the context and the hardware context away, and leaves
the lock. -/
theorem xoclAddContext_drops_context :
    ((exclusiveClient.xoclAddContext () ⟨7, 0, 0, true, 0, true, none, true⟩).toOption.map
        fun result => (result.1, result.2.legacy))
      = some (-EINVAL, none, none, 1) := by
  decide

end LegacyClient

end Xrt.Kds
