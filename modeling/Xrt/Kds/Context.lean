import Xrt.Errno
import Xrt.Lib.Run
import Mathlib.Data.BitVec
import Mathlib.Logic.Function.Basic

/-!
# CU contexts

Opening and closing compute units: `kds_add_context` and `kds_del_context` with their
helpers, and the CU contexts of `kds_hwctx.c` they work on. Three counters are involved:
`ref_cnt` of the CU context, the client's `refs[]` entry of the CU, and `cu_refs[]` of the
CU itself, whose top bit marks an exclusive reservation.

A CU context is found by its key, the hardware context with the domain and the index of the
CU: `kds_alloc_cu_hw_ctx` never allocates a second one for a key. Each call runs under the
locks of the client and of the CU, so it is one step.
-/
namespace Xrt.Kds

/-- `cu_domain`; `unknown` stands for the numbers that name no domain. -/
inductive CuDomain where
  | pl | ps | virt | unknown
  deriving DecidableEq, Repr

/-- `kds->cu_mgmt` and `kds->scu_mgmt`, with the client counters that go with them. -/
inductive Bank where
  | cu | scu
  deriving DecidableEq, Repr

def MAX_CUS : Nat := 128
def CU_CTX_PROP_MASK : BitVec 32 := 0x0F
def CU_CTX_SHARED : BitVec 32 := 0x00
def CU_CTX_EXCLUSIVE : BitVec 32 := 0x01
def CU_EXCLU_MASK : BitVec 32 := 0x80000000

/-- `domain == DOMAIN_PL ? &kds->cu_mgmt : &kds->scu_mgmt`. -/
def CuDomain.bank : CuDomain → Bank
  | .pl => .cu
  | _ => .scu

structure CuKey where
  hwCtx : Nat
  domain : CuDomain
  cuIdx : Nat
  deriving DecidableEq, Repr

/-- `struct kds_client_cu_ctx`. -/
structure CuCtx where
  flags : BitVec 32
  refCnt : BitVec 32
  deriving DecidableEq, Repr

variable {Client : Type*} [DecidableEq Client]

/-- One entry of `xcus[]`, `cu_refs[]` and of every client's `refs[]`. -/
structure Cu (Client : Type*) where
  /-- `xcus[cu_idx]` is not `NULL`. -/
  present : Bool
  cuRefs : BitVec 32
  refs : Client → BitVec 32

/-- `struct kds_sched`, with the CU contexts of all clients. -/
structure KdsSched (Client : Type*) where
  numCus : Nat
  numCdma : Nat
  cu : Bank → Nat → Cu Client
  cuCtx : Client → CuKey → Option CuCtx

variable (kds : KdsSched Client)

def KdsSched.cuOf (key : CuKey) : Cu Client :=
  kds.cu key.domain.bank key.cuIdx

def KdsSched.setCu (bank : Bank) (idx : Nat) (cu : Cu Client) : KdsSched Client :=
  { kds with cu := Function.update kds.cu bank (Function.update (kds.cu bank) idx cu) }

def KdsSched.setCuCtx (client : Client) (key : CuKey) (cuCtx : Option CuCtx) : KdsSched Client :=
  { kds with
    cuCtx := Function.update kds.cuCtx client (Function.update (kds.cuCtx client) key cuCtx) }

/-! ### The counters -/

variable (cu : Cu Client)

def Cu.setRefs (client : Client) (count : BitVec 32) : Cu Client :=
  { cu with refs := Function.update cu.refs client count }

/-- Returns the previous count as an `int`: it is negative from `2 ^ 31` on. -/
def kdsTestAndRefcntIncr (client : Client) : Int × Cu Client :=
  ((cu.refs client).toInt, cu.setRefs client (cu.refs client + 1))

def kdsTestAndRefcntDecr (client : Client) : Int × Cu Client :=
  let prev := (cu.refs client).toInt
  (prev, if prev > 0 then cu.setRefs client (cu.refs client - 1) else cu)

def Cu.exclusive : Bool := cu.cuRefs &&& CU_EXCLU_MASK != 0

/-- `prop != CU_CTX_EXCLUSIVE`. -/
def sharedFlags (flags : BitVec 32) : Bool := flags &&& CU_CTX_PROP_MASK != CU_CTX_EXCLUSIVE

/-- The error exit of `kds_add_cu_context` takes the client's count back. -/
def addRollback (client : Client) (ret : Int) : Int × Cu Client :=
  let decr := kdsTestAndRefcntDecr cu client
  (if decr.1 < 0 then -EINVAL else ret, decr.2)

def kdsAddCuContext (cuIdx : Nat) (client : Client) (flags : BitVec 32) : Int × Cu Client :=
  if cuIdx ≥ MAX_CUS ∨ cu.present = false then (-EINVAL, cu)
  else
    let incr := kdsTestAndRefcntIncr cu client
    let cuSet := incr.1
    let cu := incr.2
    -- a negative count is returned as the error, with the increment left in place
    if cuSet < 0 then (cuSet, cu)
    else if cu.exclusive then addRollback cu client (-EBUSY)
    else if !sharedFlags flags && cu.cuRefs != 0 then addRollback cu client (-EBUSY)
    else if !sharedFlags flags then (0, { cu with cuRefs := cu.cuRefs ||| CU_EXCLU_MASK })
    else if cuSet = 0 then (0, { cu with cuRefs := cu.cuRefs + 1 })
    else (0, cu)

/-- The wait for the commands that the client still has on the CU is over when the
counters are touched the second time. -/
def kdsDelCuContext (cuIdx : Nat) (client : Client) : Int × Cu Client :=
  if cuIdx ≥ MAX_CUS ∨ cu.present = false then (-EINVAL, cu)
  else
    let decr := kdsTestAndRefcntDecr cu client
    let cuSet := decr.1
    let cu := decr.2
    if cuSet < 0 then (-EINVAL, cu)
    else if cuSet = 0 then (-EINVAL, cu)
    else if cu.exclusive then (0, { cu with cuRefs := 0 })
    else if cuSet = 1 then (0, { cu with cuRefs := cu.cuRefs - 1 })
    else (0, cu)

/-! ### Adding and deleting a context -/

/-- The CU that virtual contexts count on: the first of the CDMA units at the end. -/
def KdsSched.cdmaIdx : Nat := kds.numCus - kds.numCdma

/-- The part of `kds_add_context` for a virtual CU. -/
def addVirtContext (client : Client) (cuCtx : CuCtx) : Int × KdsSched Client :=
  if cuCtx.flags = CU_CTX_EXCLUSIVE then (-EINVAL, kds)
  else if kds.numCdma ≠ 0 ∧ cuCtx.refCnt = 0 then
    let incr := kdsTestAndRefcntIncr (kds.cu .cu kds.cdmaIdx) client
    if incr.1 < 0 then (-EINVAL, kds.setCu .cu kds.cdmaIdx incr.2)
    else (0, kds.setCu .cu kds.cdmaIdx { incr.2 with cuRefs := incr.2.cuRefs + 1 })
  else (0, kds)

/-- The part of `kds_del_context` for a virtual CU; it decrements twice. -/
def delVirtContext (client : Client) : Int × KdsSched Client :=
  if kds.numCdma ≠ 0 then
    let first := kdsTestAndRefcntDecr (kds.cu .cu kds.cdmaIdx) client
    if first.1 < 0 then (-EINVAL, kds.setCu .cu kds.cdmaIdx first.2)
    else
      let second := kdsTestAndRefcntDecr first.2 client
      if second.1 = 0 then (-EINVAL, kds.setCu .cu kds.cdmaIdx second.2)
      else (0, kds.setCu .cu kds.cdmaIdx { second.2 with cuRefs := second.2.cuRefs - 1 })
  else (0, kds)

/-- The switch of `kds_add_context` over the domain. -/
def addByDomain (client : Client) (key : CuKey) (cuCtx : CuCtx) : Int × KdsSched Client :=
  match key.domain with
  | .virt => addVirtContext kds client cuCtx
  | .unknown => (-EINVAL, kds)
  | .pl | .ps =>
    let added := kdsAddCuContext (kds.cuOf key) key.cuIdx client cuCtx.flags
    (if added.1 ≠ 0 then -EINVAL else 0, kds.setCu key.domain.bank key.cuIdx added.2)

def delByDomain (client : Client) (key : CuKey) : Int × KdsSched Client :=
  match key.domain with
  | .virt => delVirtContext kds client
  | .unknown => (-EINVAL, kds)
  | .pl | .ps =>
    let deleted := kdsDelCuContext (kds.cuOf key) key.cuIdx client
    (if deleted.1 ≠ 0 then -EINVAL else 0, kds.setCu key.domain.bank key.cuIdx deleted.2)

def kdsAddContext (client : Client) (key : CuKey) (cuCtx : CuCtx) : Int × KdsSched Client :=
  let added := addByDomain kds client key cuCtx
  if added.1 ≠ 0 then added
  else (0, added.2.setCuCtx client key (some { cuCtx with refCnt := cuCtx.refCnt + 1 }))

/-- The CU counters are only touched by the close that brings `ref_cnt` down to zero. -/
def kdsDelContext (client : Client) (key : CuKey) (cuCtx : CuCtx) : Int × KdsSched Client :=
  if cuCtx.refCnt = 0 then (-EINVAL, kds)
  else
    let kds := kds.setCuCtx client key (some { cuCtx with refCnt := cuCtx.refCnt - 1 })
    if cuCtx.refCnt - 1 ≠ 0 then (0, kds) else delByDomain kds client key

/-! ### Allocating and freeing a context -/

/-- The context that is already there, whatever its flags, or else a new one with the flags
of the request. -/
def kdsAllocCuHwCtx (client : Client) (key : CuKey) (flags : BitVec 32)
    (memory : Bool) : Option (CuCtx × KdsSched Client) :=
  match kds.cuCtx client key with
  | some cuCtx => some (cuCtx, kds)
  | none =>
    if memory then
      let cuCtx : CuCtx := ⟨flags, 0⟩
      some (cuCtx, kds.setCuCtx client key (some cuCtx))
    else none

def kdsFreeCuCtx (client : Client) (key : CuKey) : KdsSched Client :=
  match kds.cuCtx client key with
  | some cuCtx => if cuCtx.refCnt = 0 then kds.setCuCtx client key none else kds
  | none => kds

def xoclOpenCuContext (client : Client) (key : CuKey) (flags : BitVec 32)
    (memory : Bool) : Int × KdsSched Client :=
  match kdsAllocCuHwCtx kds client key flags memory with
  | none => (-EINVAL, kds)
  | some (cuCtx, kds) =>
    let added := kdsAddContext kds client key cuCtx
    if added.1 ≠ 0 then (added.1, kdsFreeCuCtx added.2 client key) else added

def xoclCloseCuContext (client : Client) (key : CuKey) : Int × KdsSched Client :=
  match kds.cuCtx client key with
  | none => (-EINVAL, kds)
  | some cuCtx =>
    let deleted := kdsDelContext kds client key cuCtx
    if deleted.1 ≠ 0 then deleted else (0, kdsFreeCuCtx deleted.2 client key)

end Xrt.Kds
