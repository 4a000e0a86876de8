import Mathlib.Data.Fin.Basic
import Mathlib.Logic.Function.Basic
import Xrt.Errno

/-!
# Clients of a shared XGQ

`xocl_xgq.c`: several clients put commands into one submission queue and take the responses
from its completion queue. A response is led to its client by the low bits of its command
id, and there to the oldest submitted command. Each function holds the lock of the queue or
of the client while it works and is one step here.
-/
namespace Xrt.Xgq

/-- An index into `xx_clients`. -/
abbrev ClientId := Fin 128

def KDS_COMPLETED : BitVec 32 := 3
def KDS_TIMEOUT : BitVec 32 := 6

/-- A `struct kds_command` with the command id in the header of its `info`. `seq` names the
submission: it tells apart commands that are alike, and no function reads it. -/
structure XgqCommand where
  seq : Nat
  client : Nat
  execBoHandle : BitVec 32
  cid : BitVec 16
  status : BitVec 32
  rcode : BitVec 32
  deriving DecidableEq, Repr

structure XgqComQueueEntry where
  cid : BitVec 16
  result : BitVec 32
  rcode : BitVec 32
  deriving DecidableEq, Repr

/-- `struct xocl_xgq_client`; `needResp` is the flag `XGQ_PROT_NEED_RESP`. -/
structure XoclXgqClient where
  submitted : List XgqCommand
  numSubmit : Int
  completed : List XgqCommand
  numComplete : Int
  needResp : Bool
  deriving DecidableEq, Repr

/-- `struct xocl_xgq`. Of the completion ring there is the count of entries consumed, and
the count that the peer has been told. -/
structure XoclXgq where
  clients : ClientId → XoclXgqClient
  numClient : Nat
  consumed : Nat
  published : Nat

namespace XoclXgq

variable (xgq : XoclXgq)

variable (id : ClientId)

def updateClient (client : XoclXgqClient) : XoclXgq :=
  { xgq with clients := Function.update xgq.clients id client }

def xgqNotifyPeerConsumed : XoclXgq := { xgq with published := xgq.consumed }

/-- `(xocl_xgq_cid++ << CLIENT_ID_BITS) + client_id`, kept in 16 bits. -/
def commandCid (counter : BitVec 16) (id : ClientId) : BitVec 16 :=
  (counter <<< 7) + BitVec.ofNat 16 id.val

/-- `hdr.cid & CLIENT_ID_MASK`. -/
def clientOf (cid : BitVec 16) : ClientId := ⟨cid.toNat % 128, Nat.mod_lt _ (by decide)⟩

/-- The counter of the command ids is one for all queues, so its value is an argument;
`room` is the answer of `xgq_produce`. The command of the result is the one that went into
the queue. -/
def xoclXgqSetCommand (xcmd : XgqCommand) (counter : BitVec 16) (room : Bool) :
    Int × Option XgqCommand × XoclXgq :=
  let xcmd := { xcmd with cid := commandCid counter id }
  if room then
    let client := xgq.clients id
    (0, some xcmd, xgq.updateClient id { client with
      submitted := client.submitted ++ [xcmd]
      numSubmit := client.numSubmit + 1 })
  else (-ENOSPC, none, xgq)

/-- The oldest submitted command of the client is completed. `none` is `-EINVAL`. -/
def xoclXgqHandleResp (resp : XgqComQueueEntry) : Option (XgqCommand × XoclXgq) :=
  let client := xgq.clients id
  match client.submitted with
  | [] => none
  | xcmd :: rest =>
    let xcmd :=
      -- without `XGQ_PROT_NEED_RESP` the entry is not looked at
      if client.needResp then { xcmd with rcode := resp.rcode, status := resp.result }
      else { xcmd with status := KDS_COMPLETED }
    some (xcmd, xgq.updateClient id { client with
      submitted := rest
      completed := client.completed ++ [xcmd]
      numSubmit := client.numSubmit - 1
      numComplete := client.numComplete + 1 })

theorem xoclXgqHandleResp_cons (xgq : XoclXgq) {id : ClientId} {xcmd : XgqCommand}
    {rest : List XgqCommand} (oldest : (xgq.clients id).submitted = xcmd :: rest)
    (resp : XgqComQueueEntry) :
    ∃ done client, xgq.xoclXgqHandleResp id resp = some (done, xgq.updateClient id client) ∧
      done.seq = xcmd.seq ∧ client.submitted = rest := by
  simp only [xoclXgqHandleResp, oldest]
  refine ⟨_, _, rfl, ?_, rfl⟩
  split <;> rfl

/-- The client that a response is led to; with one client there is nothing to look up. -/
def targetId (resp : XgqComQueueEntry) : ClientId :=
  if xgq.numClient > 1 then clientOf resp.cid else id

/-- `resp` is what `xgq_consume` finds. With the return value comes the command that was
completed, whose status the caller is told. -/
def xoclXgqCheckResponse (resp : Option XgqComQueueEntry) : Int × Option XgqCommand × XoclXgq :=
  match resp with
  | none => (-ENOENT, none, xgq)
  | some resp =>
    let xgq := { xgq with consumed := xgq.consumed + 1 }
    match xgq.xoclXgqHandleResp (xgq.targetId id resp) resp with
    -- the return leaves the entry consumed, with the peer not told
    | none => (-EINVAL, none, xgq)
    | some (xcmd, xgq) =>
      let ret := if id ≠ xgq.targetId id resp then -ENOENT else 0
      (ret, some xcmd, xgq.xgqNotifyPeerConsumed)

def xoclXgqGetCommand : Option XgqCommand × XoclXgq :=
  let client := xgq.clients id
  match client.completed with
  | [] => (none, xgq)
  | xcmd :: rest =>
    (some xcmd, xgq.updateClient id { client with
      completed := rest
      numComplete := client.numComplete - 1 })

/-- The matching commands are completed with `KDS_TIMEOUT`; nothing is sent to the device. -/
def xoclXgqAbort (matching : XgqCommand → Bool) : Int × XoclXgq :=
  let client := xgq.clients id
  let matched := client.submitted.filter matching
  (if matched = [] then 0 else -EBUSY,
    xgq.updateClient id { client with
      submitted := client.submitted.filter fun xcmd => !matching xcmd
      completed := client.completed ++ matched.map fun xcmd => { xcmd with status := KDS_TIMEOUT }
      numSubmit := client.numSubmit - matched.length
      numComplete := client.numComplete + matched.length })

end XoclXgq

end Xrt.Xgq
