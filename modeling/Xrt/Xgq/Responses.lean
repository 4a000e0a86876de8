import Mathlib.Data.List.Nodup
import Xrt.Lib.Lists
import Xrt.Lib.Run
import Xrt.Xgq.Client

/-!
# Which response completes which command

A shared XGQ together with the server behind it. The server answers every command that went
into the submission queue once, with its command id, and keeps to the order of submission
for the commands of one client. The driver finds the command of a response by its place in
the list of submitted commands, from which an abort takes commands whose responses are
still to come.
-/
namespace Xrt.Xgq.Responses

open Xrt.Lib XoclXgq

/-- A command in the queues: who submitted it, which submission it is, and its id. -/
structure Ticket where
  client : ClientId
  seq : Nat
  cid : BitVec 16
  deriving DecidableEq, Repr

/-- An entry of the completion queue and the command that it answers. -/
structure Response where
  ticket : Ticket
  result : BitVec 32
  rcode : BitVec 32
  deriving DecidableEq, Repr

def Response.entry (resp : Response) : XgqComQueueEntry := ⟨resp.ticket.cid, resp.result, resp.rcode⟩

/-- What a call of `xocl_xgq_check_response` made of a response. -/
structure Handled where
  /-- The submission that the response answers. -/
  answers : Nat
  /-- That command was aborted before. -/
  late : Bool
  completes : Option Nat
  /-- When the call returns, the peer knows of every entry that was consumed. -/
  published : Bool
  deriving DecidableEq, Repr

/-- The response completed the command it answers, or nothing if that was aborted. -/
def Handled.Right (h : Handled) : Prop :=
  h.completes = (if h.late then none else some h.answers) ∧ h.published = true

structure System where
  xgq : XoclXgq
  /-- Responses that no call has consumed, oldest first. -/
  cq : List Response
  /-- Submitted commands that the server has not answered, oldest first. -/
  unanswered : List Ticket
  nextSeq : Nat
  aborted : ClientId → List Nat
  handled : List Handled

/-- Every response handled so far was handled right. -/
def System.Sound (s : System) : Prop := ∀ h ∈ s.handled, h.Right

/-- `numClient` clients have attached, and nothing has been submitted. -/
def initial (numClient : Nat) (needResp : ClientId → Bool) : System where
  xgq := ⟨fun id => ⟨[], 0, [], 0, needResp id⟩, numClient, 0, 0⟩
  cq := []
  unanswered := []
  nextSeq := 0
  aborted _ := []
  handled := []

inductive Event where
  | setCommand (id : ClientId) (xcmd : XgqCommand) (counter : BitVec 16) (room : Bool)
  /-- The server answers the oldest unanswered command of a client. -/
  | answer (id : ClientId) (result rcode : BitVec 32)
  | checkResponse (id : ClientId)
  | getCommand (id : ClientId)
  | abort (id : ClientId) (matching : XgqCommand → Bool)

def Event.client : Event → ClientId
  | .setCommand id .. | .answer id .. | .checkResponse id | .getCommand id | .abort id _ => id

namespace System

variable (s : System)

def setCommand (id : ClientId) (xcmd : XgqCommand) (counter : BitVec 16) (room : Bool) : System :=
  let (_, entered, xgq) :=
    s.xgq.xoclXgqSetCommand id { xcmd with seq := s.nextSeq } counter room
  { s with
    xgq
    unanswered := s.unanswered ++ entered.toList.map fun xcmd => ⟨id, xcmd.seq, xcmd.cid⟩
    nextSeq := s.nextSeq + 1 }

def answer (id : ClientId) (result rcode : BitVec 32) : Option System :=
  match s.unanswered.find? (·.client = id) with
  | none => none
  | some ticket => some { s with
    unanswered := s.unanswered.eraseP (·.client = id)
    cq := s.cq ++ [⟨ticket, result, rcode⟩] }

def checkResponse (id : ClientId) : System :=
  match s.cq with
  | [] => { s with xgq := (s.xgq.xoclXgqCheckResponse id none).2.2 }
  | resp :: rest =>
    let (_, done, xgq) := s.xgq.xoclXgqCheckResponse id (some resp.entry)
    { s with
      xgq
      cq := rest
      handled := s.handled ++ [{
        answers := resp.ticket.seq
        late := resp.ticket.seq ∈ s.aborted resp.ticket.client
        completes := done.map (·.seq)
        published := xgq.consumed = xgq.published }] }

def abort (id : ClientId) (matching : XgqCommand → Bool) : System :=
  { s with
    xgq := (s.xgq.xoclXgqAbort id matching).2
    aborted := Function.update s.aborted id
      (s.aborted id ++ ((s.xgq.clients id).submitted.filter matching).map (·.seq)) }

end System

/-- Only attached clients call. -/
def step (s : System) (e : Event) : Option System :=
  if e.client.val < s.xgq.numClient then
    match e with
    | .setCommand id xcmd counter room => some (s.setCommand id xcmd counter room)
    | .answer id result rcode => s.answer id result rcode
    | .checkResponse id => some (s.checkResponse id)
    | .getCommand id => some { s with xgq := (s.xgq.xoclXgqGetCommand id).2 }
    | .abort id matching => some (s.abort id matching)
  else none

/-- The condition on one step: a response that is consumed does not answer a command that
was aborted. -/
def Punctual (s : System) : Event → Prop
  | .checkResponse _ =>
    ∀ resp, s.cq.head? = some resp → resp.ticket.seq ∉ s.aborted resp.ticket.client
  | _ => True

/-! ### The order that the driver relies on -/

namespace System

variable (s : System)

/-- The commands on their way through the queues, in the order of their responses. -/
def tickets : List Ticket := s.cq.map (·.ticket) ++ s.unanswered

def outstanding (id : ClientId) : List Nat := (s.tickets.filter (·.client = id)).map (·.seq)

end System

/-- While no response was late, the submitted commands of a client are those outstanding
that were not aborted, in the same order. -/
structure Inv (s : System) : Prop where
  routed : ∀ t ∈ s.tickets, clientOf t.cid = t.client ∧ t.client.val < s.xgq.numClient
  fresh : ∀ t ∈ s.tickets, t.seq < s.nextSeq
  abortedFresh : ∀ id, ∀ seq ∈ s.aborted id, seq < s.nextSeq
  distinct : ∀ id, (s.outstanding id).Nodup
  submitted : ∀ id, (s.outstanding id).filter (· ∉ s.aborted id) =
    (s.xgq.clients id).submitted.map (·.seq)
  published : s.xgq.consumed = s.xgq.published
  sound : s.Sound

/-! ### What each event keeps -/

section Events

variable {s t : System}

theorem clientOf_commandCid (counter : BitVec 16) (id : ClientId) :
    clientOf (commandCid counter id) = id := by
  apply Fin.ext
  simp only [clientOf, commandCid, BitVec.toNat_add, BitVec.toNat_shiftLeft, BitVec.toNat_ofNat,
    Nat.shiftLeft_eq]
  omega

variable {id : ClientId} {resp : Response} {rest : List Response}

section

variable (inv : Inv s)
include inv

theorem Inv.targetId_eq (attached : id.val < s.xgq.numClient) (front : s.cq = resp :: rest) :
    s.xgq.targetId id resp.entry = resp.ticket.client := by
  have member : resp.ticket ∈ s.tickets := by simp [System.tickets, front]
  obtain ⟨cid, client⟩ := inv.routed resp.ticket member
  -- with one client the client id in the command id is not looked at
  unfold targetId
  split
  · exact cid
  · apply Fin.ext
    omega

/-- An event that neither submits nor completes anything keeps the invariant. -/
theorem Inv.frame (tickets : ∀ x ∈ t.tickets, x ∈ s.tickets)
    (outstanding : ∀ id, t.outstanding id = s.outstanding id)
    (submitted : ∀ id, (t.xgq.clients id).submitted = (s.xgq.clients id).submitted)
    (queue : t.xgq.numClient = s.xgq.numClient ∧ t.xgq.consumed = t.xgq.published)
    (seq : s.nextSeq ≤ t.nextSeq)
    (history : t.aborted = s.aborted ∧ t.handled = s.handled) : Inv t where
  routed x member := by
    rw [queue.1]
    exact inv.routed x (tickets x member)
  fresh x member := Nat.lt_of_lt_of_le (inv.fresh x (tickets x member)) seq
  abortedFresh id n member := by
    rw [history.1] at member
    exact Nat.lt_of_lt_of_le (inv.abortedFresh id n member) seq
  distinct id := by
    rw [outstanding]
    exact inv.distinct id
  submitted id := by
    rw [outstanding, submitted, history.1]
    exact inv.submitted id
  published := queue.2
  sound := by
    rw [System.Sound, history.2]
    exact inv.sound

theorem Inv.outstanding_lt {seq : Nat} (member : seq ∈ s.outstanding id) : seq < s.nextSeq := by
  obtain ⟨x, found, rfl⟩ := List.mem_map.mp member
  exact inv.fresh x (List.mem_of_mem_filter found)

end

theorem setCommand_outstanding (id other : ClientId) (xcmd : XgqCommand) (counter : BitVec 16) :
    (s.setCommand id xcmd counter true).outstanding other =
      s.outstanding other ++ if other = id then [s.nextSeq] else [] := by
  have grown : (s.setCommand id xcmd counter true).tickets =
      s.tickets ++ [⟨id, s.nextSeq, commandCid counter id⟩] := by
    simp [System.setCommand, xoclXgqSetCommand, System.tickets]
  rw [System.outstanding, grown, List.filter_append, List.map_append, System.outstanding]
  by_cases same : other = id
  · simp [same]
  · simp [same, Ne.symm same]

theorem setCommand_submitted (id other : ClientId) (xcmd : XgqCommand) (counter : BitVec 16) :
    ((s.setCommand id xcmd counter true).xgq.clients other).submitted.map (·.seq) =
      (s.xgq.clients other).submitted.map (·.seq) ++ if other = id then [s.nextSeq] else [] := by
  by_cases same : other = id
  · subst same
    simp [System.setCommand, xoclXgqSetCommand, updateClient]
  · simp [System.setCommand, xoclXgqSetCommand, updateClient, same]

section

variable (inv : Inv s)
include inv

theorem setCommand_inv (attached : id.val < s.xgq.numClient)
    (xcmd : XgqCommand) (counter : BitVec 16) (room : Bool) :
    Inv (s.setCommand id xcmd counter room) := by
  cases room with
  | false =>
    have same : (s.setCommand id xcmd counter false).tickets = s.tickets := by
      simp [System.setCommand, xoclXgqSetCommand, System.tickets]
    -- a full queue: the command is not submitted
    refine inv.frame ?_ ?_ (fun _ => rfl) ⟨rfl, inv.published⟩ (Nat.le_succ _) ⟨rfl, rfl⟩
    · exact fun x member => same ▸ member
    · intro other
      rw [System.outstanding, same, System.outstanding]
  | true =>
    have member_cases : ∀ x ∈ (s.setCommand id xcmd counter true).tickets,
        x ∈ s.tickets ∨ x = ⟨id, s.nextSeq, commandCid counter id⟩ := by
      intro x member
      simp only [System.setCommand, xoclXgqSetCommand, System.tickets, if_true, Option.toList_some,
        List.map_cons, List.map_nil, ← List.append_assoc] at member
      rwa [List.mem_append, List.mem_singleton] at member
    -- a new number has not been aborted, so the command is at the end of both lists
    have unaborted : ∀ other, s.nextSeq ∉ s.aborted other := fun other member =>
      Nat.lt_irrefl _ (inv.abortedFresh other _ member)
    exact {
      routed := fun x member => by
        obtain old | rfl := member_cases x member
        · exact inv.routed x old
        · exact ⟨clientOf_commandCid counter id, attached⟩
      fresh := fun x member => by
        obtain old | rfl := member_cases x member
        · exact Nat.lt_succ_of_lt (inv.fresh x old)
        · exact Nat.lt_succ_self s.nextSeq
      abortedFresh := fun other seq member =>
        Nat.lt_succ_of_lt (inv.abortedFresh other seq member)
      distinct := fun other => by
        rw [setCommand_outstanding]
        split
        · apply List.Nodup.append (inv.distinct other) (List.nodup_singleton _)
          intro seq member new
          have below := inv.outstanding_lt member
          rw [List.mem_singleton.mp new] at below
          exact Nat.lt_irrefl _ below
        · rw [List.append_nil]
          exact inv.distinct other
      submitted := fun other => by
        rw [setCommand_outstanding, setCommand_submitted, ← inv.submitted other, List.filter_append]
        congr 1
        split
        · exact List.filter_cons_of_pos (decide_eq_true (unaborted other))
        · rfl
      published := inv.published
      sound := inv.sound }

theorem answer_inv {result rcode : BitVec 32}
    (answered : s.answer id result rcode = some t) : Inv t := by
  unfold System.answer at answered
  cases found : s.unanswered.find? (·.client = id) with
  | none => simp [found] at answered
  | some ticket =>
    simp only [found, Option.some.injEq] at answered
    subst answered
    -- the ticket goes from the unanswered ones to the queue; per client the order stays
    refine inv.frame ?_ ?_ (fun _ => rfl) ⟨rfl, inv.published⟩ (Nat.le_refl _) ⟨rfl, rfl⟩
    · intro x member
      simp only [System.tickets, List.map_append, List.map_cons, List.map_nil, List.append_assoc,
        List.singleton_append, List.mem_append, List.mem_cons] at member ⊢
      obtain old | rfl | kept := member
      · exact Or.inl old
      · exact Or.inr (List.mem_of_find?_eq_some found)
      · exact Or.inr (List.mem_of_mem_eraseP kept)
    · intro other
      simp only [System.outstanding, System.tickets, List.map_append, List.map_cons, List.map_nil,
        List.append_assoc, List.singleton_append, List.filter_append]
      rw [filter_cons_eraseP found other]

/-- A response that is consumed completes the oldest submitted command of its client. If
there is none, the call returns before it tells the peer of the entry. -/
theorem checkResponse_cases (attached : id.val < s.xgq.numClient) (front : s.cq = resp :: rest) :
    let late : Bool := resp.ticket.seq ∈ s.aborted resp.ticket.client
    ((s.xgq.clients resp.ticket.client).submitted = [] ∧
      (s.checkResponse id).handled = s.handled ++ [⟨resp.ticket.seq, late, none, false⟩]) ∨
    ∃ xcmd others client, (s.xgq.clients resp.ticket.client).submitted = xcmd :: others ∧
      client.submitted = others ∧
      s.checkResponse id = { s with
        xgq := ⟨Function.update s.xgq.clients resp.ticket.client client, s.xgq.numClient,
          s.xgq.consumed + 1, s.xgq.consumed + 1⟩
        cq := rest
        handled := s.handled ++ [⟨resp.ticket.seq, late, some xcmd.seq, true⟩] } := by
  have target : ({ s.xgq with consumed := s.xgq.consumed + 1 } : XoclXgq).targetId id resp.entry =
      resp.ticket.client := inv.targetId_eq attached front
  have unpublished : s.xgq.consumed + 1 ≠ s.xgq.published := by
    rw [inv.published]
    exact Nat.succ_ne_self _
  cases oldest : (s.xgq.clients resp.ticket.client).submitted with
  | nil =>
    simp [System.checkResponse, front, xoclXgqCheckResponse, target, xoclXgqHandleResp, oldest, unpublished]
  | cons xcmd others =>
    obtain ⟨done, client, handled, seq, submitted⟩ := xoclXgqHandleResp_cons
      { s.xgq with consumed := s.xgq.consumed + 1 } oldest resp.entry
    refine Or.inr ⟨xcmd, others, client, rfl, submitted, ?_⟩
    simp [System.checkResponse, front, xoclXgqCheckResponse, target, handled, seq, xgqNotifyPeerConsumed,
      updateClient]

end

theorem outstanding_cons (front : s.cq = resp :: rest) (id : ClientId) : s.outstanding id =
      (if id = resp.ticket.client then [resp.ticket.seq] else []) ++
        ({ s with cq := rest } : System).outstanding id := by
  by_cases same : id = resp.ticket.client
  · simp [System.outstanding, System.tickets, front, same]
  · simp [System.outstanding, System.tickets, front, same, Ne.symm same]

section

variable (inv : Inv s)
include inv

theorem checkResponse_inv (attached : id.val < s.xgq.numClient)
    (punctual : Punctual s (.checkResponse id)) : Inv (s.checkResponse id) := by
  cases front : s.cq with
  | nil =>
    have idle : s.checkResponse id = s := by
      unfold System.checkResponse
      split
      · rfl
      next present =>
        rw [front] at present
        cases present
    rw [idle]
    exact inv
  | cons resp rest =>
    have unaborted : resp.ticket.seq ∉ s.aborted resp.ticket.client := punctual resp (by rw [front]; rfl)
    have ahead := inv.submitted resp.ticket.client
    -- the response answers the first outstanding command, which is the oldest submitted one
    rw [outstanding_cons front, if_pos rfl, List.singleton_append,
      List.filter_cons_of_pos (by simpa using unaborted)] at ahead
    obtain ⟨empty, -⟩ | ⟨xcmd, others, client, oldest, submitted, result⟩ :=
      checkResponse_cases inv attached front
    · rw [empty] at ahead
      cases ahead
    · rw [oldest, List.map_cons, List.cons.injEq] at ahead
      obtain ⟨seq, behind⟩ := ahead
      have kept : ∀ x ∈ ({ s with cq := rest } : System).tickets, x ∈ s.tickets := by
        intro x member
        simp only [System.tickets, front, List.map_cons, List.cons_append]
        exact List.mem_cons_of_mem _ member
      rw [result]
      exact {
        routed := fun x member => inv.routed x (kept x member)
        fresh := fun x member => inv.fresh x (kept x member)
        abortedFresh := inv.abortedFresh
        distinct := fun other => by
          have distinct := inv.distinct other
          rw [outstanding_cons front] at distinct
          exact distinct.of_append_right
        submitted := fun other => by
          change (({ s with cq := rest } : System).outstanding other).filter _ = _
          by_cases same : other = resp.ticket.client
          · subst same
            simpa [submitted] using behind
          · have before := inv.submitted other
            rw [outstanding_cons front, if_neg same, List.nil_append] at before
            simpa [same] using before
        published := rfl
        sound := fun h member => by
          obtain old | rfl := List.mem_append.mp member |>.imp_right List.mem_singleton.mp
          · exact inv.sound h old
          · simp [Handled.Right, unaborted, ← seq] }

theorem checkResponse_late (attached : id.val < s.xgq.numClient)
    (late : ¬ Punctual s (.checkResponse id)) : ¬ (s.checkResponse id).Sound := by
  simp only [Punctual, not_forall, not_not] at late
  obtain ⟨resp, first, aborted⟩ := late
  obtain ⟨rest, front⟩ := List.head?_eq_some_iff.mp first
  intro sound
  obtain ⟨-, handled⟩ | ⟨xcmd, others, client, -, -, result⟩ := checkResponse_cases inv attached front
  · have right := sound ⟨_, _, none, false⟩ (by rw [handled]; exact List.mem_concat_self)
    exact Bool.false_ne_true right.2
  · have right := sound ⟨_, _, some xcmd.seq, true⟩ (by rw [result]; exact List.mem_concat_self)
    simp [Handled.Right, aborted] at right

theorem abort_inv (id : ClientId) (matching : XgqCommand → Bool) : Inv (s.abort id matching) := by
  have distinct : ((s.xgq.clients id).submitted.map (·.seq)).Nodup := by
    rw [← inv.submitted id]
    exact (inv.distinct id).filter _
  exact {
    routed := inv.routed
    fresh := inv.fresh
    abortedFresh := fun other seq member => by
      by_cases same : other = id
      · subst same
        simp only [System.abort, Function.update_self, List.mem_append] at member
        obtain old | new := member
        · exact inv.abortedFresh other seq old
        · have submitted := (List.filter_sublist.map _).subset new
          rw [← inv.submitted other] at submitted
          exact inv.outstanding_lt (List.mem_of_mem_filter submitted)
      · simp only [System.abort, Function.update_of_ne same] at member
        exact inv.abortedFresh other seq member
    distinct := inv.distinct
    submitted := fun other => by
      by_cases same : other = id
      · subst same
        simp only [System.abort, xoclXgqAbort, updateClient, Function.update_self]
        -- aborted commands stay outstanding and leave the list of submitted ones
        rw [← filter_notMem_map_filter distinct, ← inv.submitted other, List.filter_filter]
        apply List.filter_congr
        simp [not_or, Bool.and_comm]
      · simp only [System.abort, xoclXgqAbort, updateClient, Function.update_of_ne same]
        exact inv.submitted other
    published := inv.published
    sound := inv.sound }

theorem getCommand_inv (id : ClientId) : Inv { s with xgq := (s.xgq.xoclXgqGetCommand id).2 } := by
  cases front : (s.xgq.clients id).completed with
  | nil =>
    simp only [xoclXgqGetCommand, front]
    exact inv
  | cons xcmd rest =>
    simp only [xoclXgqGetCommand, front]
    refine inv.frame (fun _ member => member) (fun _ => rfl) ?_ ⟨rfl, inv.published⟩ (Nat.le_refl _) ⟨rfl, rfl⟩
    intro other
    by_cases same : other = id
    · subst same
      simp [updateClient]
    · simp [updateClient, same]

end

end Events

/-! ### Runs -/

theorem initial_inv (numClient : Nat) (needResp : ClientId → Bool) :
    Inv (initial numClient needResp) where
  routed _ member := by cases member
  fresh _ member := by cases member
  abortedFresh _ _ member := by cases member
  distinct _ := List.nodup_nil
  submitted _ := rfl
  published := rfl
  sound _ member := by cases member

theorem step_inv (s : System) (e : Event) (t : System) (inv : Inv s) (punctual : Punctual s e)
    (stepped : step s e = some t) : Inv t := by
  unfold step at stepped
  split at stepped
  next attached =>
    cases e with
    | setCommand id xcmd counter room =>
      cases stepped
      exact setCommand_inv inv attached xcmd counter room
    | answer id result rcode => exact answer_inv inv stepped
    | checkResponse id =>
      cases stepped
      exact checkResponse_inv inv attached punctual
    | getCommand id =>
      cases stepped
      exact getCommand_inv inv id
    | abort id matching =>
      cases stepped
      exact abort_inv inv id matching
  · cases stepped

theorem step_late (s : System) (e : Event) (t : System) (inv : Inv s) (late : ¬ Punctual s e)
    (stepped : step s e = some t) : ¬ t.Sound := by
  cases e with
  | checkResponse id =>
    unfold step at stepped
    split at stepped
    next attached =>
      cases stepped
      exact checkResponse_late inv attached late
    · cases stepped
  | _ => exact absurd trivial late

theorem step_handled {s t : System} {e : Event} (stepped : step s e = some t) :
    s.handled ⊆ t.handled := by
  unfold step at stepped
  split at stepped
  · cases e with
    | answer id result rcode =>
      simp only [System.answer] at stepped
      split at stepped <;> cases stepped
      exact List.Subset.refl _
    | checkResponse id =>
      cases stepped
      unfold System.checkResponse
      split
      · exact List.Subset.refl _
      · exact List.subset_append_left _ _
    | _ =>
      cases stepped
      exact List.Subset.refl _
  · cases stepped

/-- Along every run, each response completed the command it answers and was published
before the call returned, if and only if no response consumed was that of an aborted
command. -/
theorem responses_sound_iff (numClient : Nat) (needResp : ClientId → Bool) (events : List Event)
    (s : System) (ran : run step (initial numClient needResp) events = some s) :
    s.Sound ↔ Along step Punctual (initial numClient needResp) events := by
  refine run_good_iff_along step_inv (fun s inv => inv.sound) step_late ?_ (initial_inv numClient needResp) ran
  intro s e t unsound stepped sound
  exact unsound fun h member => sound h (step_handled stepped member)

def blank : XgqCommand := ⟨0, 0, 0, 0, 0, 0⟩

def twoClients : System := initial 2 fun _ => false

/-- Client 1 takes the response of client 0, and then its own. -/
def quietRun : List Event :=
  [.setCommand 0 blank 0 true, .setCommand 1 blank 1 true, .answer 0 0 0, .checkResponse 1,
    .answer 1 0 0, .checkResponse 1]

theorem responses_sound_quiet :
    ∃ s, run step twoClients quietRun = some s ∧ s.Sound ∧
      s.handled = [⟨0, false, some 0, true⟩, ⟨1, false, some 1, true⟩] := by
  refine ⟨_, rfl, (responses_sound_iff 2 (fun _ => false) quietRun _ rfl).mpr ?_, rfl⟩
  refine along_cons rfl trivial (along_cons rfl trivial (along_cons rfl trivial
    (along_cons rfl ?_ (along_cons rfl trivial (along_cons rfl ?_ trivial)))))
  · intro resp first
    exact List.not_mem_nil
  · intro resp first
    exact List.not_mem_nil

/-- The first of two commands is aborted, and its response comes after that. -/
def lateRun : List Event :=
  [.setCommand 0 blank 0 true, .setCommand 0 blank 1 true, .abort 0 (·.seq = 0), .answer 0 0 0,
    .checkResponse 0]

/-- The only command is aborted, and its response comes after that. -/
def lateLastRun : List Event :=
  [.setCommand 0 blank 0 true, .abort 0 fun _ => true, .answer 0 0 0, .checkResponse 0]

/-- The late response completes the second command; without a second command its entry is
consumed and the peer is not told. -/
theorem late_response_misattributed :
    (∃ s, run step twoClients lateRun = some s ∧ s.handled = [⟨0, true, some 1, true⟩] ∧
      ¬ s.Sound) ∧
    ∃ s, run step twoClients lateLastRun = some s ∧ s.handled = [⟨0, true, none, false⟩] ∧
      ¬ s.Sound := by
  constructor
  · refine ⟨_, rfl, rfl, fun sound => ?_⟩
    have right := sound ⟨0, true, some 1, true⟩ (List.mem_singleton_self _)
    cases right.1
  · refine ⟨_, rfl, rfl, fun sound => ?_⟩
    have right := sound ⟨0, true, none, false⟩ (List.mem_singleton_self _)
    cases right.2

end Xrt.Xgq.Responses
