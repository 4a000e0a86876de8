import Xrt.Ert.SchedCu
import Xrt.Execbuf.Ert
import Xrt.Lib.Counter

/-!
# Starting a kernel on three paths

A packet that starts a kernel is executed by the driver itself, or it is converted to an
XGQ command, which a driver or the ERT firmware executes. Each of the paths encodes the
arguments in its own way and counts them in words or bytes; the CU sees the same writes.
-/
namespace Xrt.Execbuf.Start

open Xrt.Cu Xrt.Ert

section Conversion

variable (xcmd : KdsCommand) (pkt : ErtPacket)

/-- `ecmd->data[i]`; the first word of the packet's data is `cu_mask`. -/
def ecmdData (i : Nat) : BitVec 32 := pkt.data.getD (1 + i) 0

def numMask : Nat := 1 + pkt.extraCuMasks

/-- `memcpy(.., &ecmd->data[first], words * 4)`. -/
def copyData (first words : Nat) : List (BitVec 32) :=
  (List.range words).map fun i => ecmdData pkt (first + i)

/-! ### To a command of the driver -/

/-- The registers of the kernel follow the masks, and the first four of them, which control
it, are left out. -/
def startKrnlEcmd2xcmd : KdsCommand :=
  let words := pkt.count - numMask pkt - 4
  { xcmd with
    opcode := .start
    isize := words * 4
    info := copyData pkt (4 + pkt.extraCuMasks) words ++ xcmd.info.drop words
    payloadType := .regmap }

def startKrnlKvEcmd2xcmd : KdsCommand :=
  let words := pkt.count - numMask pkt
  { xcmd with
    opcode := .start
    isize := words * 4
    info := copyData pkt pkt.extraCuMasks words ++ xcmd.info.drop words
    payloadType := .keyVal }

/-! ### To an XGQ command -/

/-- The first word of a `struct xgq_cmd_sq_hdr` in state 1. -/
def sqHdr (opcode : BitVec 32) (count : Nat) : BitVec 32 :=
  BitVec.ofNat 32 (2 ^ 31 + count % 2 ^ 15 * 2 ^ 16 + opcode.toNat % 2 ^ 16)

/-- `info` is what the buffer of the command held before; the result is the buffer and the
size of the command. `DOMAIN_PL` is zero. -/
def xgqExecConvertStartCuCmd (info : List (BitVec 32)) : List (BitVec 32) × Nat :=
  let words := pkt.count - numMask pkt - 4
  (sqHdr XGQ_CMD_OP_START_CUIDX (words * 4) :: (info.getD 1 0 &&& 0x0FFFFFFF) ::
      (copyData pkt (4 + pkt.extraCuMasks) words ++ info.drop (2 + words)),
    8 + words * 4)

def xgqExecConvertStartKvCuCmd (info : List (BitVec 32)) : List (BitVec 32) × Nat :=
  let words := pkt.count - numMask pkt
  (sqHdr XGQ_CMD_OP_START_CUIDX_KV (words * 4) :: info.getD 1 0 ::
      (copyData pkt pkt.extraCuMasks words ++ info.drop (2 + words)),
    8 + words * 4)

/-! ### The paths -/

/-- The command of the driver for a packet that starts a kernel. -/
def ecmd2xcmd : KdsCommand :=
  if pkt.opcode = some .startKeyVal then startKrnlKvEcmd2xcmd xcmd pkt
  else startKrnlEcmd2xcmd xcmd pkt

def xgqCommand (info : List (BitVec 32)) : List (BitVec 32) × Nat :=
  if pkt.opcode = some .startKeyVal then xgqExecConvertStartKvCuCmd pkt info
  else xgqExecConvertStartCuCmd pkt info

def ecmd2xgq : KdsCommand :=
  { xcmd with
    opcode := .start
    info := (xgqCommand pkt xcmd.info).1
    isize := (xgqCommand pkt xcmd.info).2
    payloadType := .xgqCmd }

end Conversion

/-- The slot at `addr` holds the words of a command. The second word of the header is the
queue's own: it gets the command id there and the index of the CU. -/
def SlotHolds (mem : Memory) (addr : BitVec 64) (words : List (BitVec 32)) : Prop :=
  ∀ i, i < words.length → i ≠ 1 → mem (busAddr (addr + BitVec.ofNat 64 (4 * i))) = words.getD i 0

/-- What the firmware does with the command in the slot at `addr`. -/
def ertStart (mem : Memory) (addr : BitVec 64) (cu : SchedCu) : Int × SchedCu :=
  cu.cuExecute mem (SchedCmd.cmdLoadHeader ⟨addr, 0⟩ mem)

/-! ### What a packet asks for -/

/-- A validated packet that starts a kernel, with whole pairs if it is a list of them. -/
structure StartPacket where
  pkt : ErtPacket
  valid : pkt.ertValidOpcode = true
  starts : pkt.opcode = some .startCu ∨
    pkt.opcode = some .startKeyVal ∧ 2 ∣ pkt.count - (1 + pkt.extraCuMasks)

def startWrites (pkt : ErtPacket) : List RegWrite :=
  if pkt.opcode = some .startKeyVal then
    (List.range ((pkt.count - numMask pkt) / 2)).map fun i =>
      ⟨ecmdData pkt (pkt.extraCuMasks + 2 * i), ecmdData pkt (pkt.extraCuMasks + 2 * i + 1)⟩
  else
    (List.range (pkt.count - numMask pkt - 4)).map fun i =>
      ⟨ARGS + BitVec.ofNat 32 (i * 4), ecmdData pkt (4 + pkt.extraCuMasks + i)⟩

def onBus (cuAddr : BitVec 64) (w : RegWrite) : BusWrite :=
  ⟨busAddr (cuAddr + w.reg.setWidth 64), w.val⟩

/-! ### Reading the encodings back -/

section Encoding

variable {pkt : ErtPacket}

theorem count_lt (pkt : ErtPacket) : pkt.count < 2 ^ 11 := (pkt.header.extractLsb' 12 11).isLt

variable {count : Nat}

theorem sqHdr_toNat {opcode : BitVec 32} (small : opcode.toNat < 2 ^ 16) (fits : count < 2 ^ 15) :
    (sqHdr opcode count).toNat = 2 ^ 31 + count * 2 ^ 16 + opcode.toNat := by
  rw [sqHdr, BitVec.toNat_ofNat, Nat.mod_eq_of_lt fits, Nat.mod_eq_of_lt small]
  omega

theorem sqHdr_opcode {opcode : BitVec 32} (small : opcode.toNat < 2 ^ 16)
    (fits : count < 2 ^ 15) : sqHdr opcode count &&& 0xFFFF = opcode := by
  apply BitVec.eq_of_toNat_eq
  rw [Lib.toNat_and_ones (m := 16) _ rfl, sqHdr_toNat small fits]
  omega

theorem sqHdr_count {opcode : BitVec 32} (small : opcode.toNat < 2 ^ 16)
    (fits : count < 2 ^ 15) : ((sqHdr opcode count >>> 16) &&& 0x7FFF).toNat = count := by
  rw [Lib.toNat_and_ones (m := 15) _ rfl, BitVec.toNat_ushiftRight, sqHdr_toNat small fits, Nat.shiftRight_eq_div_pow]
  omega

theorem getD_copyData {first words i : Nat} (inside : i < words) (rest : List (BitVec 32)) :
    (copyData pkt first words ++ rest).getD i 0 = ecmdData pkt (first + i) := by
  simp [copyData, List.getD_eq_getElem?_getD, List.getElem?_append_left, inside]

theorem regmapWrites_eq (xcmd : KdsCommand) (first : Nat) {words off : Nat}
    (copied : ∀ i < words, xcmd.word (first + i) = ecmdData pkt (off + i)) :
    regmapWrites xcmd first words =
      (List.range words).map fun i => ⟨ARGS + BitVec.ofNat 32 (i * 4), ecmdData pkt (off + i)⟩ := by
  apply List.map_congr_left
  intro i member
  rw [copied i (List.mem_range.mp member)]

theorem keyValWrites_eq (xcmd : KdsCommand) (first : Nat) {words off : Nat} (whole : 2 ∣ words)
    (copied : ∀ i < words, xcmd.word (first + i) = ecmdData pkt (off + i)) :
    keyValWrites xcmd first words =
      (List.range (words / 2)).map fun i =>
        ⟨ecmdData pkt (off + 2 * i), ecmdData pkt (off + 2 * i + 1)⟩ := by
  -- the loop of the driver takes one more step for a key without a value
  have pairs : (words + 1) / 2 = words / 2 := by omega
  rw [keyValWrites, pairs]
  apply List.map_congr_left
  intro i member
  have inside : i < words / 2 := List.mem_range.mp member
  have key := copied (2 * i) (by omega)
  have value := copied (2 * i + 1) (by omega)
  rw [Nat.add_assoc first, Nat.add_assoc off, key, value]

end Encoding

/-! ### The three paths -/

section Paths

variable {pkt : ErtPacket} (xcmd : KdsCommand)

theorem startKrnlEcmd2xcmd_writes (cu : XrtCuHls) :
    cuHlsConfigure false cu (startKrnlEcmd2xcmd xcmd pkt) = some (cuWrites cu
      ((List.range (pkt.count - numMask pkt - 4)).map fun i =>
        ⟨ARGS + BitVec.ofNat 32 (i * 4), ecmdData pkt (4 + pkt.extraCuMasks + i)⟩)) := by
  have copied : ∀ i < pkt.count - numMask pkt - 4,
      (startKrnlEcmd2xcmd xcmd pkt).word (0 + i) = ecmdData pkt (4 + pkt.extraCuMasks + i) := by
    intro i inside
    rw [Nat.zero_add]
    exact getD_copyData inside _
  have size : (startKrnlEcmd2xcmd xcmd pkt).isize / 4 = pkt.count - numMask pkt - 4 :=
    Nat.mul_div_cancel _ (by decide)
  rw [← regmapWrites_eq _ _ copied, ← size]
  rfl

theorem startKrnlKvEcmd2xcmd_writes (cu : XrtCuHls) (whole : 2 ∣ pkt.count - numMask pkt) :
    cuHlsConfigure false cu (startKrnlKvEcmd2xcmd xcmd pkt) = some (cuWrites cu
      ((List.range ((pkt.count - numMask pkt) / 2)).map fun i =>
        ⟨ecmdData pkt (pkt.extraCuMasks + 2 * i), ecmdData pkt (pkt.extraCuMasks + 2 * i + 1)⟩)) := by
  have copied : ∀ i < pkt.count - numMask pkt,
      (startKrnlKvEcmd2xcmd xcmd pkt).word (0 + i) = ecmdData pkt (pkt.extraCuMasks + i) := by
    intro i inside
    rw [Nat.zero_add]
    exact getD_copyData inside _
  have size : (startKrnlKvEcmd2xcmd xcmd pkt).isize / 4 = pkt.count - numMask pkt :=
    Nat.mul_div_cancel _ (by decide)
  rw [← keyValWrites_eq _ _ whole copied, ← size]
  rfl

end Paths

/-! ### XGQ commands -/

/-- The words of an XGQ command with its opcode and `words` arguments, the packet's words
from `off` on. -/
structure Carries (pkt : ErtPacket) (opcode : BitVec 32) (off words : Nat)
    (info : List (BitVec 32)) : Prop where
  header : info.getD 0 0 = sqHdr opcode (words * 4)
  args : ∀ i < words, info.getD (2 + i) 0 = ecmdData pkt (off + i)
  length : 2 + words ≤ info.length

section Xgq

variable {pkt : ErtPacket} {opcode : BitVec 32} {off words : Nat} {info : List (BitVec 32)}

theorem carries_cons (word1 : BitVec 32) (rest : List (BitVec 32)) :
    Carries pkt opcode off words
      (sqHdr opcode (words * 4) :: word1 :: (copyData pkt off words ++ rest)) where
  header := rfl
  args i inside := by
    rw [Nat.add_comm 2 i]
    exact getD_copyData inside rest
  length := by
    simp only [List.length_cons, List.length_append, copyData, List.length_map, List.length_range]
    omega

theorem Carries.host {xcmd : KdsCommand} (carries : Carries pkt opcode off words xcmd.info)
    (small : opcode.toNat < 2 ^ 16) (fits : words * 4 < 2 ^ 15) :
    hdrOpcode xcmd = opcode ∧ xgqNumReg xcmd = words := by
  have header : xcmd.word 0 = sqHdr opcode (words * 4) := carries.header
  constructor
  · rw [hdrOpcode, header, sqHdr_opcode small fits]
  · rw [xgqNumReg, hdrCount, header, sqHdr_count small fits, Nat.mul_div_cancel _ (by decide)]

variable {mem : Memory} {cmd : SchedCmd}

/-- The firmware reads them back from the slot, and the arguments behind them. -/
theorem Carries.slot (carries : Carries pkt opcode off words info)
    {addr : BitVec 64} (slot : SlotHolds mem addr (info.take (2 + words))) :
    (SchedCmd.cmdLoadHeader ⟨addr, 0⟩ mem).header = sqHdr opcode (words * 4) ∧
      ∀ i < words, mem (busAddr (addr + 8 + BitVec.ofNat 64 (4 * i))) = ecmdData pkt (off + i) := by
  have taken : (info.take (2 + words)).length = 2 + words := List.length_take_of_le carries.length
  -- the slot has only the command, the buffer may have more behind it
  have getD_take : ∀ i < 2 + words, (info.take (2 + words)).getD i 0 = info.getD i 0 := by
    intro i inside
    rw [List.getD_eq_getElem?_getD, List.getElem?_take_of_lt inside, ← List.getD_eq_getElem?_getD]
  constructor
  · have word0 := slot 0 (by omega) (by decide)
    rw [getD_take 0 (by omega), carries.header] at word0
    rw [← word0]
    simp [SchedCmd.cmdLoadHeader]
  · intro i inside
    have word := slot (2 + i) (by omega) (by omega)
    rw [getD_take (2 + i) (by omega), carries.args i inside] at word
    have behind : addr + 8 + BitVec.ofNat 64 (4 * i) = addr + BitVec.ofNat 64 (4 * (2 + i)) := by
      rw [Nat.mul_add, BitVec.ofNat_add, ← BitVec.add_assoc]
      rfl
    rw [behind, word]

theorem cmdPayloadSize_of_header (small : opcode.toNat < 2 ^ 16)
    (fits : words * 4 < 2 ^ 15) (header : cmd.header = sqHdr opcode (words * 4)) :
    cmd.cmdPayloadSize.toNat = words * 4 := by
  rw [SchedCmd.cmdPayloadSize, header, sqHdr_count small fits]

theorem cmdOpCode_of_header (small : opcode.toNat < 2 ^ 16)
    (fits : words * 4 < 2 ^ 15) (header : cmd.header = sqHdr opcode (words * 4)) :
    cmd.cmdOpCode = opcode := by
  rw [SchedCmd.cmdOpCode, header, sqHdr_opcode small fits]

theorem xgqStart_writes {xcmd : KdsCommand} (cu : XrtCuHls) (fits : words * 4 < 2 ^ 15)
    (type : xcmd.payloadType = .xgqCmd)
    (carries : Carries pkt XGQ_CMD_OP_START_CUIDX off words xcmd.info) :
    cuHlsConfigure false cu xcmd = some (cuWrites cu ((List.range words).map fun i =>
      ⟨ARGS + BitVec.ofNat 32 (i * 4), ecmdData pkt (off + i)⟩)) := by
  obtain ⟨opcode, numReg⟩ := carries.host (by decide) fits
  have writes := regmapWrites_eq xcmd 2 carries.args
  simp [cuHlsConfigure, type, opcode, cuHlsXgqStart, numReg, writes]

theorem xgqStartKv_writes {xcmd : KdsCommand} (cu : XrtCuHls) (fits : words * 4 < 2 ^ 15)
    (whole : 2 ∣ words) (type : xcmd.payloadType = .xgqCmd)
    (carries : Carries pkt XGQ_CMD_OP_START_CUIDX_KV off words xcmd.info) :
    cuHlsConfigure false cu xcmd = some (cuWrites cu ((List.range (words / 2)).map fun i =>
      ⟨ecmdData pkt (off + 2 * i), ecmdData pkt (off + 2 * i + 1)⟩)) := by
  obtain ⟨opcode, numReg⟩ := carries.host (by decide) fits
  have writes := keyValWrites_eq xcmd 2 whole carries.args
  have other : XGQ_CMD_OP_START_CUIDX_KV ≠ XGQ_CMD_OP_START_CUIDX := by decide
  simp [cuHlsConfigure, type, opcode, other, cuHlsXgqStartKv, numReg, writes]

theorem busAddr_add (a b : BitVec 64) : busAddr (a + b) = busAddr a + busAddr b :=
  BitVec.setWidth_add a b (by decide)

theorem busAddr_arg (cuAddr : BitVec 64) (i : Nat) :
    busAddr (cuAddr + SCHED_CU_ARG_OFFSET + BitVec.ofNat 64 (4 * i)) =
      busAddr (cuAddr + (ARGS + BitVec.ofNat 32 (i * 4)).setWidth 64) := by
  have index : busAddr (BitVec.ofNat 64 (4 * i)) = BitVec.ofNat 32 (i * 4) := by
    rw [busAddr, BitVec.setWidth_ofNat_of_le (by decide), Nat.mul_comm]
  have offset : busAddr ((ARGS + BitVec.ofNat 32 (i * 4)).setWidth 64) =
      ARGS + BitVec.ofNat 32 (i * 4) :=
    BitVec.setWidth_setWidth_of_le _ (by decide)
  rw [busAddr_add, busAddr_add, busAddr_add, index, offset, BitVec.add_assoc]
  rfl

theorem kickOff_writes (cu : SchedCu) :
    cu.kickOff.writes = cu.writes ++ [⟨busAddr cu.cuAddr, SCHED_AP_START⟩] := rfl

theorem cuStart_writes (cu : SchedCu) (size : cmd.cmdPayloadSize.toNat = words * 4)
    (args : ∀ i < words,
      mem (busAddr (cmd.ccAddr + 8 + BitVec.ofNat 64 (4 * i))) = ecmdData pkt (off + i)) :
    (cu.cuStart mem cmd).1 = 0 ∧
      (cu.cuStart mem cmd).2.writes = cu.writes ++ ((List.range words).map fun i =>
          ⟨ARGS + BitVec.ofNat 32 (i * 4), ecmdData pkt (off + i)⟩).map (onBus cu.cuAddr) ++
        [⟨busAddr cu.cuAddr, SCHED_AP_START⟩] := by
  have aligned : cmd.cmdPayloadSize &&& 3 = 0 := by
    apply BitVec.eq_of_toNat_eq
    rw [Lib.toNat_and_ones (m := 2) _ rfl, size]
    exact Nat.mul_mod_left words 4
  have copied : SchedCu.argWrites mem (cmd.ccAddr + 8) (cu.cuAddr + SCHED_CU_ARG_OFFSET)
      cmd.cmdPayloadSize = ((List.range words).map fun i =>
        (⟨ARGS + BitVec.ofNat 32 (i * 4), ecmdData pkt (off + i)⟩ : RegWrite)).map (onBus cu.cuAddr) := by
    rw [SchedCu.argWrites, size, Nat.mul_div_cancel _ (by decide), List.map_map]
    apply List.map_congr_left
    intro i member
    rw [args i (List.mem_range.mp member), busAddr_arg]
    rfl
  rw [SchedCu.cuStart]
  simp only [SchedCmd.cmdArgs, aligned, ne_eq, not_true_eq_false, if_false, true_and]
  rw [kickOff_writes, copied]
  rfl

theorem cuStartKv_writes (cu : SchedCu) (whole : 2 ∣ words)
    (size : cmd.cmdPayloadSize.toNat = words * 4)
    (args : ∀ i < words,
      mem (busAddr (cmd.ccAddr + 8 + BitVec.ofNat 64 (4 * i))) = ecmdData pkt (off + i)) :
    (cu.cuStartKv mem cmd).1 = 0 ∧
      (cu.cuStartKv mem cmd).2.writes = cu.writes ++ ((List.range (words / 2)).map fun i =>
          ⟨ecmdData pkt (off + 2 * i), ecmdData pkt (off + 2 * i + 1)⟩).map (onBus cu.cuAddr) ++
        [⟨busAddr cu.cuAddr, SCHED_AP_START⟩] := by
  have aligned : cmd.cmdPayloadSize &&& 7 = 0 := by
    apply BitVec.eq_of_toNat_eq
    rw [Lib.toNat_and_ones (m := 3) _ rfl, size]
    have pairs : 8 ∣ words * 4 := Nat.mul_dvd_mul whole (Nat.dvd_refl 4)
    exact Nat.mod_eq_zero_of_dvd pairs
  have copied : SchedCu.kvWrites mem (cmd.ccAddr + 8) cu.cuAddr cmd.cmdPayloadSize =
      ((List.range (words / 2)).map fun i =>
        (⟨ecmdData pkt (off + 2 * i), ecmdData pkt (off + 2 * i + 1)⟩ : RegWrite)).map (onBus cu.cuAddr) := by
    have pairs : words * 4 / 8 = words / 2 := by omega
    rw [SchedCu.kvWrites, size, pairs, List.map_map]
    apply List.map_congr_left
    intro i member
    have inside : i < words / 2 := List.mem_range.mp member
    have key := args (2 * i) (by omega)
    have value := args (2 * i + 1) (by omega)
    rw [← Nat.mul_assoc] at key
    rw [Nat.mul_add, ← Nat.mul_assoc] at value
    rw [key, value]
    rfl
  rw [SchedCu.cuStartKv, SchedCu.cuInitKv]
  simp only [SchedCmd.cmdKvArgs, SchedCmd.cmdArgs, aligned, ne_eq, not_true_eq_false, if_false, true_and]
  rw [kickOff_writes, copied]
  rfl

end Xgq

/-! ### The paths agree -/

section Agreement

variable (start : StartPacket) (xcmd : KdsCommand)

theorem words_fit (pkt : ErtPacket) : (pkt.count - numMask pkt) * 4 < 2 ^ 15 := by
  have := count_lt pkt
  omega

theorem StartPacket.whole (keyVal : start.pkt.opcode = some .startKeyVal) :
    2 ∣ start.pkt.count - numMask start.pkt := by
  obtain regmap | ⟨-, whole⟩ := start.starts
  · rw [regmap] at keyVal
    cases keyVal
  · exact whole

theorem ecmd2xcmd_writes (hls : XrtCuHls) :
    cuHlsConfigure false hls (ecmd2xcmd xcmd start.pkt) =
      some (cuWrites hls (startWrites start.pkt)) := by
  by_cases keyVal : start.pkt.opcode = some .startKeyVal
  · rw [ecmd2xcmd, startWrites, if_pos keyVal, if_pos keyVal]
    exact startKrnlKvEcmd2xcmd_writes xcmd hls (start.whole keyVal)
  · rw [ecmd2xcmd, startWrites, if_neg keyVal, if_neg keyVal]
    exact startKrnlEcmd2xcmd_writes xcmd hls

theorem ecmd2xgq_writes (hls : XrtCuHls) :
    cuHlsConfigure false hls (ecmd2xgq xcmd start.pkt) =
      some (cuWrites hls (startWrites start.pkt)) := by
  have fits := words_fit start.pkt
  by_cases keyVal : start.pkt.opcode = some .startKeyVal
  · rw [startWrites, if_pos keyVal]
    apply xgqStartKv_writes hls fits (start.whole keyVal) rfl
    rw [ecmd2xgq, xgqCommand, if_pos keyVal]
    exact carries_cons _ _
  · rw [startWrites, if_neg keyVal]
    apply xgqStart_writes hls (by omega) rfl
    rw [ecmd2xgq, xgqCommand, if_neg keyVal]
    exact carries_cons _ _

theorem ertStart_writes {mem : Memory} {addr : BitVec 64} (cu : SchedCu)
    (slot : SlotHolds mem addr
      ((xgqCommand start.pkt xcmd.info).1.take ((xgqCommand start.pkt xcmd.info).2 / 4))) :
    (ertStart mem addr cu).1 = 0 ∧
      (ertStart mem addr cu).2.writes = cu.writes ++ (startWrites start.pkt).map (onBus cu.cuAddr) ++
        [⟨busAddr cu.cuAddr, SCHED_AP_START⟩] := by
  have fits := words_fit start.pkt
  by_cases keyVal : start.pkt.opcode = some .startKeyVal
  · rw [xgqCommand, if_pos keyVal] at slot
    have size : (8 + (start.pkt.count - numMask start.pkt) * 4) / 4 =
        2 + (start.pkt.count - numMask start.pkt) := by omega
    simp only [xgqExecConvertStartKvCuCmd, size] at slot
    obtain ⟨header, args⟩ := (carries_cons _ _).slot slot
    have opcode := cmdOpCode_of_header (by decide) fits header
    have other : XGQ_CMD_OP_START_CUIDX_KV ≠ XGQ_CMD_OP_START_CUIDX := by decide
    rw [startWrites, if_pos keyVal, ertStart, SchedCu.cuExecute, opcode, if_neg other, if_pos rfl]
    exact cuStartKv_writes cu (start.whole keyVal)
      (cmdPayloadSize_of_header (by decide) fits header) args
  · rw [xgqCommand, if_neg keyVal] at slot
    have size : (8 + (start.pkt.count - numMask start.pkt - 4) * 4) / 4 =
        2 + (start.pkt.count - numMask start.pkt - 4) := by omega
    simp only [xgqExecConvertStartCuCmd, size] at slot
    obtain ⟨header, args⟩ := (carries_cons _ _).slot slot
    have opcode := cmdOpCode_of_header (by decide) (by omega) header
    rw [startWrites, if_neg keyVal, ertStart, SchedCu.cuExecute, opcode, if_pos rfl]
    exact cuStart_writes cu (cmdPayloadSize_of_header (by decide) (by omega) header) args

/-- One extra mask and the pair {0x18, 7}. -/
def pairPacket : StartPacket where
  pkt := ⟨0x07804400, [1, 0, 0x18, 7]⟩
  valid := by decide
  starts := by decide

def blankXcmd : KdsCommand := ⟨0, 0, .new, .none, 0, .regmap, [0, 0, 0, 0], 0⟩

/-- Only the slot at address zero is filled. -/
def pairSlot : Memory := fun a => (ecmd2xgq blankXcmd pairPacket.pkt).info.getD (a.toNat / 4) 0

end Agreement

end Xrt.Execbuf.Start
