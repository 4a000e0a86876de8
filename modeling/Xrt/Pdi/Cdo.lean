import Mathlib.Tactic
import Xrt.Lib.Run

/-!
# The command list of a PDI

A PDI image is a row of 32-bit words: its headers, the five words of the CDO header and the
CDO commands. `XCdo_LoadCdo` walks the commands one by one. The accesses that it makes to the
device are the behaviour of a load; the base pointer of the device is an argument.
-/
namespace Xrt.Pdi

open Lib

abbrev Word := BitVec 32

inductive CmdId
  | maskWrite
  | write
  | dmaWrite
  | maskWrite64
  | write64
  | nop
deriving DecidableEq, Repr

namespace CmdId

def code : CmdId → Word
  | maskWrite => 2
  | write => 3
  | dmaWrite => 5
  | maskWrite64 => 7
  | write64 => 8
  | nop => 17

def ofCode (w : Word) : Option CmdId :=
  if w = 2 then some maskWrite
  else if w = 3 then some write
  else if w = 5 then some dmaWrite
  else if w = 7 then some maskWrite64
  else if w = 8 then some write64
  else if w = 17 then some nop
  else none

/-- The payload words that the command's own function reads. -/
def uses : CmdId → Nat
  | maskWrite => 3
  | write => 2
  | dmaWrite => 2
  | maskWrite64 => 4
  | write64 => 3
  | nop => 0

@[simp] theorem ofCode_code_masked (id : CmdId) : ofCode (id.code &&& 0xFF) = some id := by
  cases id <;> rfl

end CmdId

/-- An access of a load to the device. -/
inductive Io
  | write32 (addr : BitVec 64) (value : Word)
  | maskWrite32 (addr : BitVec 64) (mask value : Word)
  | memcpy (dest : BitVec 64) (data : List Word)
deriving DecidableEq, Repr

/-! ### The commands on their own -/

section Accesses

variable (base : BitVec 64) (payload : List Word)

def addr32 : BitVec 64 := base + (payload.getD 0 0).setWidth 64

def addr64 : BitVec 64 := base + (payload.getD 0 0 ++ payload.getD 1 0)

def xcdoMaskWrite : Io := .maskWrite32 (addr32 base payload) (payload.getD 1 0) (payload.getD 2 0)

def xcdoWrite : Io := .write32 (addr32 base payload) (payload.getD 1 0)

def xcdoDmaWrite (payloadLen : Nat) : Io :=
  .memcpy (addr64 base payload) ((payload.drop 2).take (payloadLen - 2))

def xcdoMaskWrite64 : Io :=
  .maskWrite32 (addr64 base payload) (payload.getD 2 0) (payload.getD 3 0)

def xcdoWrite64 : Io := .write32 (addr64 base payload) (payload.getD 2 0)

end Accesses

/-! ### Walking the list -/

structure XCdoCmd where
  hdrLen : Nat
  size : Nat
  payloadLen : Nat
  payload : List Word
deriving DecidableEq, Repr

/-- A short length of 255 announces a second header word with the length. -/
def xcdoCmdSize : List Word → Option XCdoCmd
  | [] => none
  | w :: ws =>
    let len := ((w &&& 0xFF0000) >>> 16).toNat
    if len = 255 then
      match ws with
      | [] => none
      | n :: payload => some ⟨2, (2 + n.toNat) % 2 ^ 32, n.toNat, payload⟩
    else some ⟨1, 1 + len, len, ws⟩

inductive Stop
  /-- The size of a command is more than what is left of the list. -/
  | tooLong
  | unknown
  /-- A word outside the image is read. -/
  | outside
  /-- A command of size zero keeps the loop where it is. -/
  | hangs
deriving DecidableEq, Repr

/-- A command with the place of its payload, counted in words from the first command. -/
structure Command where
  id : CmdId
  off : Nat
  cmd : XCdoCmd
deriving DecidableEq, Repr

/-- The loop over a list that `XCdo_LoadCdo` and `XPdi_Cmd_Parse` share, from the word at `off` on:
the commands it comes to, and what ends it before the list is over. Every round but one with a
command of size zero uses up a word, so that the length of the list bounds the rounds of a loop
that ends. -/
def walk : Nat → Nat → List Word → List Command × Option Stop
  | _, _, [] => ([], none)
  | 0, _, _ :: _ => ([], some .hangs)
  | fuel + 1, off, w :: ws =>
    match xcdoCmdSize (w :: ws) with
    | none => ([], some .outside)
    | some cmd =>
      if (w :: ws).length < cmd.size then ([], some .tooLong)
      else
        match CmdId.ofCode (w &&& 0xFF) with
        | none => ([], some .unknown)
        | some id =>
          let (cs, stop) := walk fuel (off + cmd.size) ((w :: ws).drop cmd.size)
          (⟨id, off + cmd.hdrLen, cmd⟩ :: cs, stop)

def execute (base : BitVec 64) (id : CmdId) (cmd : XCdoCmd) : List Io :=
  match id with
  | .maskWrite => [xcdoMaskWrite base cmd.payload]
  | .write => [xcdoWrite base cmd.payload]
  | .dmaWrite => [xcdoDmaWrite base cmd.payload cmd.payloadLen]
  | .maskWrite64 => [xcdoMaskWrite64 base cmd.payload]
  | .write64 => [xcdoWrite64 base cmd.payload]
  | .nop => []

def cdoHdrLen : Nat := 5

def parseBufFromCDO (cdo : List Word) : Except Stop (List Word) :=
  let bufLen := (cdo.getD 3 0).toNat
  if cdo.length < cdoHdrLen + bufLen then .error .outside
  else .ok ((cdo.drop cdoHdrLen).take bufLen)

def xcdoLoadCdo (base : BitVec 64) (cdo : List Word) : Except Stop (List Io) := do
  let buf ← parseBufFromCDO cdo
  match walk buf.length 0 buf with
  | (cs, none) => .ok (cs.flatMap fun c => execute base c.id c.cmd)
  | (_, some stop) => .error stop

/-! ### What the loop comes to -/

/-- Every command of the list meets `P`, none has the size zero, which a long length of 0xFFFFFFFE
gives, and the list does not end behind the first word of a long header. A command that is unknown
or too long for the list ends it. -/
inductive Tidy (P : CmdId → XCdoCmd → Prop) : List Word → Prop
  | nil : Tidy P []
  | refused {w : Word} {ws : List Word} {cmd : XCdoCmd} (sized : xcdoCmdSize (w :: ws) = some cmd)
      (stops : (w :: ws).length < cmd.size ∨ CmdId.ofCode (w &&& 0xFF) = none) : Tidy P (w :: ws)
  | command {w : Word} {ws : List Word} {id : CmdId} {cmd : XCdoCmd}
      (sized : xcdoCmdSize (w :: ws) = some cmd) (known : CmdId.ofCode (w &&& 0xFF) = some id)
      (moves : cmd.size ≠ 0) (met : P id cmd) (later : Tidy P ((w :: ws).drop cmd.size)) :
      Tidy P (w :: ws)

variable {P : CmdId → XCdoCmd → Prop} {fuel off : Nat} {buf : List Word} {id : CmdId} {cmd : XCdoCmd}

variable {w : Word} {ws : List Word}

theorem walk_command (sized : xcdoCmdSize (w :: ws) = some cmd)
    (fits : cmd.size ≤ (w :: ws).length) (known : CmdId.ofCode (w &&& 0xFF) = some id) :
    walk (fuel + 1) off (w :: ws)
      = (⟨id, off + cmd.hdrLen, cmd⟩ :: (walk fuel (off + cmd.size) ((w :: ws).drop cmd.size)).1,
        (walk fuel (off + cmd.size) ((w :: ws).drop cmd.size)).2) := by
  simp only [walk, sized, if_neg (Nat.not_lt.mpr fits), known]

theorem walk_refused (fuel off : Nat) (sized : xcdoCmdSize (w :: ws) = some cmd)
    (stops : (w :: ws).length < cmd.size ∨ CmdId.ofCode (w &&& 0xFF) = none) :
    ∃ stop, walk (fuel + 1) off (w :: ws) = ([], some stop) ∧ stop ≠ .hangs ∧ stop ≠ .outside := by
  by_cases long : (w :: ws).length < cmd.size
  · exact ⟨.tooLong, by simp only [walk, sized, if_pos long], by decide, by decide⟩
  · have unknown := stops.resolve_left long
    exact ⟨.unknown, by simp only [walk, sized, if_neg long, unknown], by decide, by decide⟩

theorem walk_hangs (sized : xcdoCmdSize (w :: ws) = some cmd)
    (stays : cmd.size = 0) (known : CmdId.ofCode (w &&& 0xFF) = some id) (fuel off : Nat) :
    (walk fuel off (w :: ws)).2 = some .hangs := by
  induction fuel generalizing off with
  | zero => rfl
  | succ fuel ih =>
    rw [walk_command sized (by omega) known, stays]
    exact ih off

/-- The loop is over in time, and its commands meet `P`, exactly if the list is tidy. -/
theorem walk_tidy_iff (off : Nat) (enough : buf.length ≤ fuel) :
    ((walk fuel off buf).2 ≠ some .hangs ∧ (walk fuel off buf).2 ≠ some .outside
      ∧ ∀ c ∈ (walk fuel off buf).1, P c.id c.cmd) ↔ Tidy P buf := by
  induction fuel generalizing off buf with
  | zero =>
    obtain rfl : buf = [] := List.length_eq_zero_iff.mp (by omega)
    exact ⟨fun _ => .nil, fun _ => ⟨by simp [walk], by simp [walk], by simp [walk]⟩⟩
  | succ fuel ih =>
    cases buf with
    | nil => exact ⟨fun _ => .nil, fun _ => ⟨by simp [walk], by simp [walk], by simp [walk]⟩⟩
    | cons w ws =>
      cases sized : xcdoCmdSize (w :: ws) with
      | none =>
        constructor
        · rintro ⟨-, inside, -⟩
          exact absurd (by simp only [walk, sized]) inside
        · intro tidy
          cases tidy with
          | refused found | command found => cases sized.symm.trans found
      | some cmd =>
        by_cases stops : (w :: ws).length < cmd.size ∨ CmdId.ofCode (w &&& 0xFF) = none
        · obtain ⟨stop, same, ends, inside⟩ := walk_refused fuel off sized stops
          rw [same]
          exact ⟨fun _ => .refused sized stops,
            fun _ => ⟨by simpa using ends, by simpa using inside, by simp⟩⟩
        · rw [not_or] at stops
          obtain ⟨id, known⟩ := Option.ne_none_iff_exists'.mp stops.2
          by_cases stays : cmd.size = 0
          · constructor
            · rintro ⟨ends, -⟩
              exact absurd (walk_hangs sized stays known _ _) ends
            · intro tidy
              cases tidy with
              | refused found bad =>
                cases sized.symm.trans found
                exact absurd bad (not_or.mpr stops)
              | command found _ moves =>
                cases sized.symm.trans found
                exact absurd stays moves
          · have fewer : ((w :: ws).drop cmd.size).length ≤ fuel := by
              rw [List.length_drop, List.length_cons]
              rw [List.length_cons] at enough
              omega
            rw [walk_command sized (Nat.not_lt.mp stops.1) known]
            simp only [List.forall_mem_cons]
            constructor
            · rintro ⟨ends, inside, met, rest⟩
              exact .command sized known stays met ((ih _ fewer).mp ⟨ends, inside, rest⟩)
            · intro tidy
              cases tidy with
              | refused found bad =>
                cases sized.symm.trans found
                exact absurd bad (not_or.mpr stops)
              | command found named moves met later =>
                cases sized.symm.trans found
                cases known.symm.trans named
                obtain ⟨ends, inside, rest⟩ := (ih _ fewer).mpr later
                exact ⟨ends, inside, met, rest⟩

theorem xcdoCmdSize_payload (sized : xcdoCmdSize buf = some cmd) :
    cmd.payload = buf.drop cmd.hdrLen ∧ cmd.hdrLen ≤ buf.length ∧ cmd.payloadLen < 2 ^ 32 := by
  cases buf with
  | nil => cases sized
  | cons w ws =>
    simp only [xcdoCmdSize] at sized
    split at sized
    · cases ws with
      | nil => cases sized
      | cons n payload =>
        cases sized
        exact ⟨rfl, by simp, n.isLt⟩
    · cases sized
      exact ⟨rfl, by simp, BitVec.isLt _⟩

/-- The payload of a command is what stands behind its header in the list. -/
theorem walk_placed (start : Nat) (tail : List Word) (here : buf.drop start = tail)
    (inside : start ≤ buf.length) :
    ∀ c ∈ (walk fuel start tail).1, c.cmd.hdrLen ≤ c.off
      ∧ c.off + c.cmd.payload.length = buf.length ∧ c.cmd.payloadLen < 2 ^ 32 := by
  induction fuel generalizing start tail with
  | zero => cases tail <;> simp [walk]
  | succ fuel ih =>
    cases tail with
    | nil => simp [walk]
    | cons w ws =>
      cases sized : xcdoCmdSize (w :: ws) with
      | none => simp [walk, sized]
      | some cmd =>
        by_cases stops : (w :: ws).length < cmd.size ∨ CmdId.ofCode (w &&& 0xFF) = none
        · obtain ⟨stop, same, -⟩ := walk_refused fuel start sized stops
          simp [same]
        · rw [not_or] at stops
          obtain ⟨id, known⟩ := Option.ne_none_iff_exists'.mp stops.2
          have fits := Nat.not_lt.mp stops.1
          obtain ⟨payload, hdr, counted⟩ := xcdoCmdSize_payload sized
          have len := congrArg List.length here
          rw [List.length_drop] at len
          rw [walk_command sized fits known]
          intro c member
          rcases List.mem_cons.mp member with rfl | later
          · refine ⟨Nat.le_add_left _ _, ?_, counted⟩
            change start + cmd.hdrLen + cmd.payload.length = _
            rw [payload, List.length_drop]
            omega
          · refine ih (start + cmd.size) _ ?_ (by omega) c later
            rw [← List.drop_drop, here]

end Xrt.Pdi
