import Xrt.Execbuf.CopyBo

/-!
# The buffers around a command

The payload buffer of a command is as large as the data of its packet, and the XGQ command is built
in it. When the command is done, the driver writes its state, return code and time stamps to the
user's exec buffer, behind or over the packet that is still there.
-/
namespace Xrt.Execbuf

open Start

def XGQ_CMD_OP_CLOCK_CALIB : BitVec 32 := 0x10c
def XGQ_CMD_OP_ACCESS_VALID : BitVec 32 := 0x10d
def XGQ_CMD_OP_DATA_INTEGRITY : BitVec 32 := 0x10e

section Conversion

variable (pkt : ErtPacket) (info : List (BitVec 32))

/-- As for a CU, but nothing is left out. `DOMAIN_PS` is one. -/
def xgqExecConvertStartScuCmd : List (BitVec 32) × Nat :=
  let words := pkt.count - numMask pkt
  (sqHdr Cu.XGQ_CMD_OP_START_CUIDX (words * 4) ::
      (info.getD 1 0 &&& 0x0FFFFFFF ||| 0x10000000) ::
      (copyData pkt pkt.extraCuMasks words ++ info.drop (2 + words)),
    8 + words * 4)

/-- The commands that have only a header, which says that the data of the packet follow. -/
def convertHeader (opcode : BitVec 32) (size : Nat) : List (BitVec 32) × Nat :=
  (sqHdr opcode (pkt.count * 4) :: info.getD 1 0 :: info.drop 2, size)

def xgqExecConvertClockCalibCmd : List (BitVec 32) × Nat :=
  convertHeader pkt info XGQ_CMD_OP_CLOCK_CALIB (8 + pkt.count * 4 % 2 ^ 15)

def xgqExecConvertAccessibleCmd : List (BitVec 32) × Nat :=
  convertHeader pkt info XGQ_CMD_OP_ACCESS_VALID (8 + pkt.count * 4 % 2 ^ 15)

/-- The size is that of a `struct xgq_cmd_data_integrity`. -/
def xgqExecConvertDataIntegrityCmd : List (BitVec 32) × Nat :=
  convertHeader pkt info XGQ_CMD_OP_DATA_INTEGRITY 16

/-- The loop moves the words behind the masks six words up. -/
def convertExecWrite2keyVal : ErtPacket where
  header := ertHeader (pkt.header.extractLsb' 28 4) (pkt.header.extractLsb' 23 5)
    (BitVec.ofNat 11 (pkt.count - 6)) (pkt.header.extractLsb' 10 2) (pkt.header.extractLsb' 0 10)
  data := (List.range pkt.data.length).map fun j =>
    if 1 + pkt.extraCuMasks ≤ j ∧ j < 1 + (pkt.count - 7) then pkt.data.getD (j + 6) 0
    else pkt.data.getD j 0

end Conversion

namespace Call

variable (call : Call) (pkt : ErtPacket)

/-- What `xocl_fill_payload_xgq` builds: the payload buffer, which held `info`, and `isize`. For a
copy that is left to a CU these are the registers of the CU. -/
def xgqInfo (info : List (BitVec 32)) : Option (List (BitVec 32) × Nat) :=
  match pkt.opcode with
  | some .skStart => some (xgqExecConvertStartScuCmd pkt info)
  | some .startCu => some (xgqExecConvertStartCuCmd pkt info)
  | some .clkCalib => some (xgqExecConvertClockCalibCmd pkt info)
  | some .accessTestC => some (xgqExecConvertDataIntegrityCmd pkt info)
  | some .mbValidate => some (xgqExecConvertAccessibleCmd pkt info)
  | some .execWrite =>
    some (xgqExecConvertStartKvCuCmd
      (if call.kds.psSchedOn then pkt else convertExecWrite2keyVal pkt) info)
  | some .startKeyVal => some (xgqExecConvertStartKvCuCmd pkt info)
  | some .startCopybo =>
    match call.boPaddr (pkt.word 10) (pkt.word64 9 8) (pkt.word 14),
      call.boPaddr (pkt.word 13) (pkt.word64 12 11) (pkt.word 14) with
    | .ok srcAddr, .ok dstAddr =>
      let xcmd := startKrnlEcmd2xcmd { blankXcmd with info } (call.copyCommand pkt srcAddr dstAddr)
      some (xcmd.info, xcmd.isize)
    | _, _ => none
  | _ => none

/-- The words of the packet with `ecmd->data[first]` and those behind it; the header is word 0 and
`cu_mask` word 1. -/
def dataWords (first words : Nat) : List Nat := (List.range words).map (2 + first + ·)

/-- The words of the packet that `xocl_fill_payload_xgq` reads. -/
def xgqReads : List Nat :=
  let extra := pkt.extraCuMasks
  0 :: match pkt.opcode with
  | some .skStart | some .startKeyVal =>
    1 :: dataWords 0 extra ++ dataWords extra (pkt.count - numMask pkt)
  | some .startCu => 1 :: dataWords 0 extra ++ dataWords (4 + extra) (pkt.count - numMask pkt - 4)
  | some .execWrite =>
    (if call.kds.psSchedOn then [] else dataWords (extra + 6) (pkt.count - 7 - extra)) ++
      1 :: dataWords 0 extra ++ dataWords extra (pkt.count - call.execWriteSkipped - numMask pkt)
  -- the addresses and the size, and then the masks and registers that have taken their place
  | some .startCopybo => List.range' 9 7 ++ 1 :: dataWords 0 3 ++ dataWords 7 8
  | _ => []

/-- The opcodes whose XGQ command takes no more room than the data of the packet. -/
def Roomy : Prop :=
  match pkt.opcode with
  -- a header of two words takes the place of the masks
  | some .skStart | some .startKeyVal => pkt.extraCuMasks ≠ 0
  | some .execWrite => call.kds.psSchedOn = true → pkt.extraCuMasks ≠ 0
  | some .clkCalib | some .mbValidate => False
  | some .accessTestC => 4 ≤ pkt.count
  | _ => True

end Call

/-! ### The payload buffer -/

/-- The buffer still has its length, and the size is not beyond it. -/
def Fits (words : Nat) (built : List (BitVec 32) × Nat) : Prop :=
  built.1.length ≤ words ∧ built.2 ≤ words * 4

section Payload

variable {call : Call} {pkt : ErtPacket} {info : List (BitVec 32)}

theorem fits_command_iff {pkt' : ErtPacket} {first words : Nat} (a b : BitVec 32)
    (length : info.length = pkt.count) :
    Fits pkt.count (a :: b :: (copyData pkt' first words ++ info.drop (2 + words)), 8 + words * 4) ↔
      2 + words ≤ pkt.count := by
  simp only [Fits, List.length_cons, List.length_append, copyData, List.length_map,
    List.length_range, List.length_drop]
  omega

theorem fits_convertHeader_iff (opcode : BitVec 32) (size : Nat) (length : info.length = pkt.count) :
    Fits pkt.count (convertHeader pkt info opcode size) ↔ 2 ≤ pkt.count ∧ size ≤ pkt.count * 4 := by
  simp only [Fits, convertHeader, List.length_cons, List.length_drop]
  omega

theorem convertExecWrite2keyVal_fields (pkt : ErtPacket) :
    (convertExecWrite2keyVal pkt).count = pkt.count - 6 ∧
      (convertExecWrite2keyVal pkt).extraCuMasks = pkt.extraCuMasks := by
  have bound := count_lt pkt
  constructor
  · refine (count_ertHeader ..).trans ?_
    rw [BitVec.toNat_ofNat]
    omega
  · exact extraCuMasks_ertHeader ..

theorem xgqInfo_fits_iff (valid : pkt.ertValidOpcode = true) (length : info.length = pkt.count) :
    (∀ built, call.xgqInfo pkt info = some built → Fits pkt.count built) ↔ call.Roomy pkt := by
  have bound := count_lt pkt
  have masks : numMask pkt = 1 + pkt.extraCuMasks := rfl
  unfold Call.xgqInfo Call.Roomy
  unfold ErtPacket.ertValidOpcode at valid
  cases opcode : pkt.opcode with
  | none => simp
  | some op =>
    rw [opcode] at valid
    cases op <;> simp only [Option.some.injEq, forall_eq', decide_eq_true_eq, reduceCtorEq,
      false_implies, implies_true] at valid ⊢
    case startCu =>
      rw [xgqExecConvertStartCuCmd, fits_command_iff _ _ length, iff_true]
      omega
    case skStart =>
      rw [xgqExecConvertStartScuCmd, fits_command_iff _ _ length]
      omega
    case startKeyVal =>
      rw [xgqExecConvertStartKvCuCmd, fits_command_iff _ _ length]
      omega
    case execWrite =>
      rw [xgqExecConvertStartKvCuCmd, fits_command_iff _ _ length]
      cases call.kds.psSchedOn with
      | true =>
        simp only [if_true, true_implies]
        omega
      | false =>
        -- the six words that are taken out leave room for the header
        obtain ⟨count, extra⟩ := convertExecWrite2keyVal_fields pkt
        simp [numMask, count, extra]
        omega
    case clkCalib =>
      rw [xgqExecConvertClockCalibCmd, fits_convertHeader_iff _ _ length, iff_false]
      omega
    case mbValidate =>
      rw [xgqExecConvertAccessibleCmd, fits_convertHeader_iff _ _ length, iff_false]
      omega
    case accessTestC =>
      rw [xgqExecConvertDataIntegrityCmd, fits_convertHeader_iff _ _ length]
      omega
    case startCopybo =>
      rw [iff_true]
      intro built made
      split at made
      next srcAddr dstAddr _ _ =>
        obtain ⟨-, words⟩ := copyCommand_words call pkt srcAddr dstAddr
        cases made
        simp only [Fits, startKrnlEcmd2xcmd, words, List.length_append, copyData, List.length_map,
          List.length_range, List.length_drop, length]
        omega
      · cases made

theorem mem_dataWords {i first words : Nat} :
    i ∈ Call.dataWords first words ↔ 2 + first ≤ i ∧ i < 2 + first + words := by
  rw [Call.dataWords, List.mem_map]
  constructor
  · rintro ⟨k, inside, rfl⟩
    have := List.mem_range.mp inside
    omega
  · rintro ⟨from_, before⟩
    exact ⟨i - (2 + first), List.mem_range.mpr (by omega), by omega⟩

theorem xgqReads_inside (valid : pkt.ertValidOpcode = true) :
    ∀ i ∈ call.xgqReads pkt, i ≤ pkt.count := by
  have masks : numMask pkt = 1 + pkt.extraCuMasks := rfl
  intro i member
  unfold Call.xgqReads at member
  unfold ErtPacket.ertValidOpcode at valid
  rw [List.mem_cons] at member
  obtain rfl | member := member
  · exact Nat.zero_le _
  · cases opcode : pkt.opcode with
    | none => simp [opcode] at member
    | some op =>
      rw [opcode] at valid member
      cases op <;> simp only [decide_eq_true_eq, List.not_mem_nil, List.mem_cons, List.mem_append,
        List.cons_append, mem_dataWords, List.mem_range'_1, Call.execWriteSkipped] at valid member
      case execWrite =>
        split at member <;> simp only [List.not_mem_nil, mem_dataWords, false_or] at member <;> omega
      all_goals omega

/-- Two packets with the same header and the same `count` words. -/
structure Alike (pkt pkt' : ErtPacket) : Prop where
  header : pkt'.header = pkt.header
  data : ∀ i < pkt.count, pkt'.data.getD i 0 = pkt.data.getD i 0

namespace Alike

variable {pkt' : ErtPacket}

section

variable (alike : Alike pkt pkt')
include alike

theorem opcode : pkt'.opcode = pkt.opcode := by
  rw [ErtPacket.opcode, alike.header, ErtPacket.opcode]

theorem count : pkt'.count = pkt.count := by
  rw [ErtPacket.count, alike.header, ErtPacket.count]

theorem extraCuMasks : pkt'.extraCuMasks = pkt.extraCuMasks := by
  rw [ErtPacket.extraCuMasks, alike.header, ErtPacket.extraCuMasks]

theorem copyData {first words : Nat} (inside : 1 + first + words ≤ pkt.count) :
    copyData pkt' first words = copyData pkt first words := by
  apply List.map_congr_left
  intro i member
  have := List.mem_range.mp member
  exact alike.data _ (by omega)

theorem word (i : Nat) (inside : i < pkt.count) : pkt'.word i = pkt.word i :=
  congrArg BitVec.toNat (alike.data i inside)

end

end Alike

theorem getD_convertExecWrite2keyVal (pkt : ErtPacket) (j : Nat) :
    (convertExecWrite2keyVal pkt).data.getD j 0 =
      if 1 + pkt.extraCuMasks ≤ j ∧ j < 1 + (pkt.count - 7) then pkt.data.getD (j + 6) 0
      else pkt.data.getD j 0 := by
  rcases Nat.lt_or_ge j pkt.data.length with inside | behind
  · simp [convertExecWrite2keyVal, List.getD_eq_getElem?_getD, inside]
  · simp [convertExecWrite2keyVal, List.getD_eq_getElem?_getD, behind, Nat.le_add_right_of_le behind]

theorem Alike.convertExecWrite2keyVal {pkt' : ErtPacket} (alike : Alike pkt pkt') :
    Alike (convertExecWrite2keyVal pkt) (convertExecWrite2keyVal pkt') := by
  constructor
  · simp only [Execbuf.convertExecWrite2keyVal, alike.header, alike.count]
  · intro j inside
    rw [(convertExecWrite2keyVal_fields pkt).1] at inside
    rw [getD_convertExecWrite2keyVal, getD_convertExecWrite2keyVal, alike.count,
      alike.extraCuMasks, alike.data (j + 6) (by omega), alike.data j (by omega)]

theorem Alike.startKv {pkt' : ErtPacket} (alike : Alike pkt pkt') (masks : numMask pkt ≤ pkt.count) :
    xgqExecConvertStartKvCuCmd pkt' info = xgqExecConvertStartKvCuCmd pkt info := by
  unfold numMask at masks
  simp only [xgqExecConvertStartKvCuCmd, numMask, alike.count, alike.extraCuMasks]
  rw [alike.copyData (by omega)]

theorem Alike.copyCommand {pkt' : ErtPacket} (alike : Alike pkt pkt') (sixteen : pkt.count = 16)
    (srcAddr dstAddr : Nat) :
    call.copyCommand pkt' srcAddr dstAddr = call.copyCommand pkt srcAddr dstAddr := by
  have reserved : (List.range' 4 4).map (fun i => pkt'.data.getD i 0) =
      (List.range' 4 4).map (fun i => pkt.data.getD i 0) := by
    apply List.map_congr_left
    intro i member
    have := List.mem_range'_1.mp member
    exact alike.data i (by omega)
  simp only [Call.copyCommand, ertFillCopyboCmd, reserved, alike.header, alike.word 14 (by omega)]

/-- No word behind the packet has a part in what is built. -/
theorem xgqInfo_congr {pkt' : ErtPacket} (alike : Alike pkt pkt')
    (valid : pkt.ertValidOpcode = true) : call.xgqInfo pkt' info = call.xgqInfo pkt info := by
  unfold Call.xgqInfo
  unfold ErtPacket.ertValidOpcode at valid
  rw [alike.opcode]
  cases opcode : pkt.opcode with
  | none => rfl
  | some op =>
    rw [opcode] at valid
    cases op <;> simp only [decide_eq_true_eq] at valid ⊢
    case startCu =>
      simp only [xgqExecConvertStartCuCmd, numMask, alike.count, alike.extraCuMasks]
      rw [alike.copyData (by omega)]
    case skStart =>
      simp only [xgqExecConvertStartScuCmd, numMask, alike.count, alike.extraCuMasks]
      rw [alike.copyData (by omega)]
    case startKeyVal => rw [alike.startKv (by unfold numMask; omega)]
    case execWrite =>
      split
      · rw [alike.startKv (by unfold numMask; omega)]
      · obtain ⟨count, extra⟩ := convertExecWrite2keyVal_fields pkt
        rw [alike.convertExecWrite2keyVal.startKv (by rw [numMask, count, extra]; omega)]
    case startCopybo =>
      simp only [ErtPacket.word64, alike.copyCommand valid]
      rw [alike.word 8 (by omega), alike.word 9 (by omega), alike.word 10 (by omega),
        alike.word 11 (by omega), alike.word 12 (by omega), alike.word 13 (by omega),
        alike.word 14 (by omega)]
    case clkCalib => rw [xgqExecConvertClockCalibCmd, convertHeader, alike.count]; rfl
    case mbValidate => rw [xgqExecConvertAccessibleCmd, convertHeader, alike.count]; rfl
    case accessTestC => rw [xgqExecConvertDataIntegrityCmd, convertHeader, alike.count]; rfl

/-- The XGQ command of an accepted packet stays in the payload buffer exactly if the buffer is large
enough for a command of its opcode. The packet is read only as far as it goes, and nothing behind it
matters. -/
theorem xgqConversion_within_iff {bo : Bo} (accepted : call.copyAndValidateExecbuf bo = some pkt)
    (length : info.length = pkt.count) :
    ((∀ built, call.xgqInfo pkt info = some built → Fits pkt.count built) ↔ call.Roomy pkt) ∧
      (∀ i ∈ call.xgqReads pkt, i ≤ pkt.count) ∧
      ∀ pkt', Alike pkt pkt' → call.xgqInfo pkt' info = call.xgqInfo pkt info :=
  have valid := (copyAndValidateExecbuf_spec accepted).1
  ⟨xgqInfo_fits_iff valid length, xgqReads_inside valid, fun _ alike => xgqInfo_congr alike valid⟩

end Payload

/-- A call for a page with a packet, with XGQ, and the driver's copy of the packet. -/
def xgqCall (header : BitVec 32) (data : List (BitVec 32)) : Call :=
  callFor true (page true header data)

theorem xgqConversion_within_startCu :
    (xgqCall 0x5001 [1, 0, 0, 0, 0]).copyAndValidateExecbuf (page true 0x5001 [1, 0, 0, 0, 0]) =
        some ⟨0x5001, [1, 0, 0, 0, 0]⟩ ∧
      ∀ built, (xgqCall 0x5001 [1, 0, 0, 0, 0]).xgqInfo ⟨0x5001, [1, 0, 0, 0, 0]⟩ [0, 0, 0, 0, 0] =
        some built → Fits 5 built := by
  have accepted : (xgqCall 0x5001 [1, 0, 0, 0, 0]).copyAndValidateExecbuf
      (page true 0x5001 [1, 0, 0, 0, 0]) = some ⟨0x5001, [1, 0, 0, 0, 0]⟩ := by decide
  exact ⟨accepted, (xgqConversion_within_iff accepted (by decide)).1.mpr trivial⟩

/-- A PS kernel is started with a mask and an argument: the command has three words, and the buffer
two. The size of a clock calibration is always that of its header too large. -/
theorem xgqConversion_outside :
    (xgqCall 0x04802001 [1, 7]).copyAndValidateExecbuf (page true 0x04802001 [1, 7]) =
        some ⟨0x04802001, [1, 7]⟩ ∧
      (xgqCall 0x04802001 [1, 7]).xgqInfo ⟨0x04802001, [1, 7]⟩ [0, 0] =
        some ([0x80040100, 0x10000000, 7], 12) ∧
      (xgqCall 0x06802001 [1, 7]).copyAndValidateExecbuf (page true 0x06802001 [1, 7]) =
        some ⟨0x06802001, [1, 7]⟩ ∧
      (xgqCall 0x06802001 [1, 7]).xgqInfo ⟨0x06802001, [1, 7]⟩ [0, 0] =
        some ([0x8008010C, 0], 16) := by
  decide

/-! ### The exec buffer -/

section WriteBack

variable (pkt : ErtPacket)

/-- `ert_start_kernel_timestamps`, from the start of the packet. -/
def timestampsAt : Nat := (pkt.size + 7) / 8 * 8

/-- Where `ert_write_return_code` writes: `data[count - 1 - extra_cu_masks]`. -/
def returnCodeAt : Nat := 4 * (2 + (pkt.count - 1 - pkt.extraCuMasks))

/-- The driver takes time stamps of every command that starts something. -/
def timestampEnabled : Bool := pkt.statEnabled && pkt.opcode.any (· ∈ startOpcodes)

/-- The stamps of three states and of the last one; a write is its offset and length. -/
def timestampWrites (state : ErtCmdState) : List (Nat × Nat) :=
  if timestampEnabled pkt then
    [ErtCmdState.new, .queued, .running, state].map fun state =>
      (timestampsAt pkt + 8 * state.toNat, 8)
  else []

/-- The writes to the header, and those of the return code and of the time stamps, when the packet
has the given state and KDS the given status. -/
def writeBack (notifyHost : NotifyHost) (state : ErtCmdState) (status : KdsStatus) :
    List (Nat × Nat) × List (Nat × Nat) :=
  match notifyHost with
  | .execbuf =>
    if pkt.opcode = some .skStart then
      ([], (if state.IsCompleted then [] else [(returnCodeAt pkt, 4)]) ++ timestampWrites pkt state)
    else ([(0, 4)], timestampWrites pkt status.toErt)
  | .execbufXgq =>
    ([(0, 4)], (if pkt.opcode = some .skStart then [(returnCodeAt pkt, 4)] else []) ++
      timestampWrites pkt status.toErt)

/-- The write is in the buffer, and on neither the header nor an argument. -/
def Clear (bo : Bo) (write : Nat × Nat) : Prop :=
  write.1 + write.2 ≤ bo.size ∧ 4 ≤ write.1 ∧
    (write.1 + write.2 ≤ 4 * (1 + numMask pkt) ∨ pkt.size ≤ write.1)

/-- What the checks of the driver leave open: room for the time stamps of a list of registers, and
for a return code behind the packet. With more masks the return code goes into the packet, where
only a short one has no argument. -/
structure Spacious (bo : Bo) : Prop where
  keyVal : pkt.opcode = some .startKeyVal → pkt.statEnabled = true →
    timestampsAt pkt + 96 ≤ bo.size
  skStart : pkt.opcode = some .skStart →
    pkt.extraCuMasks = 0 ∧ pkt.size + 4 ≤ bo.size ∨
      pkt.extraCuMasks ≠ 0 ∧ pkt.count ≤ 2 * pkt.extraCuMasks

end WriteBack

section Notification

variable {call : Call} {bo : Bo} {pkt : ErtPacket}

theorem returnCode_clear_iff (accepted : call.copyAndValidateExecbuf bo = some pkt)
    (opcode : pkt.opcode = some .skStart) :
    Clear pkt bo (returnCodeAt pkt, 4) ↔
      pkt.extraCuMasks = 0 ∧ pkt.size + 4 ≤ bo.size ∨
        pkt.extraCuMasks ≠ 0 ∧ pkt.count ≤ 2 * pkt.extraCuMasks := by
  obtain ⟨valid, size, -⟩ := copyAndValidateExecbuf_spec accepted
  rw [ErtPacket.ertValidOpcode, opcode] at valid
  simp only [decide_eq_true_eq] at valid
  simp only [Clear, returnCodeAt, numMask, ErtPacket.size] at *
  omega

theorem timestamps_clear (room : timestampEnabled pkt = true → timestampsAt pkt + 96 ≤ bo.size)
    (state : ErtCmdState) : ∀ write ∈ timestampWrites pkt state, Clear pkt bo write := by
  have le : ∀ state : ErtCmdState, state.toNat ≤ 11 := by
    intro state
    cases state <;> decide
  intro write member
  rw [timestampWrites] at member
  split at member
  next enabled =>
    have behind : pkt.size ≤ timestampsAt pkt := by
      unfold timestampsAt
      omega
    have header : 4 ≤ pkt.size := Nat.le_add_right _ _
    have room := room enabled
    obtain ⟨state, -, rfl⟩ := List.mem_map.mp member
    have := le state
    refine ⟨?_, ?_, .inr ?_⟩ <;> dsimp only <;> omega
  · cases member

theorem timestamps_room (accepted : call.copyAndValidateExecbuf bo = some pkt)
    (page : pageSize ≤ bo.size)
    (keyVal : pkt.opcode = some .startKeyVal → pkt.statEnabled = true →
      timestampsAt pkt + 96 ≤ bo.size) (enabled : timestampEnabled pkt = true) :
    timestampsAt pkt + 96 ≤ bo.size := by
  obtain ⟨valid, -, stamps⟩ := copyAndValidateExecbuf_spec accepted
  rw [timestampEnabled, Bool.and_eq_true] at enabled
  obtain ⟨stat, starts⟩ := enabled
  cases opcode : pkt.opcode with
  | none => simp [opcode] at starts
  | some op =>
    rw [opcode] at starts
    rw [ErtPacket.sizeWithTimestampsOrZero, opcode] at stamps
    rw [ErtPacket.ertValidOpcode, opcode] at valid
    cases op <;> simp [startOpcodes] at starts
    case startCu | execWrite | startFa | skStart => simpa [stat, timestampsAt] using stamps
    case startKeyVal => exact keyVal opcode stat
    case startCopybo =>
      -- not checked either, but its 16 words with the stamps are less than a page
      simp only [decide_eq_true_eq] at valid
      simp only [pageSize, timestampsAt, ErtPacket.size, valid] at *
      omega

/-- Whatever the notification writes to the exec buffer of an accepted packet is in the buffer and
leaves header and arguments alone, exactly if there is room for what the driver has not checked. -/
theorem writeBack_within_iff (accepted : call.copyAndValidateExecbuf bo = some pkt)
    (page : pageSize ≤ bo.size) :
    (∀ notifyHost state status,
      (∀ write ∈ (writeBack pkt notifyHost state status).1, write.1 + write.2 ≤ bo.size) ∧
        ∀ write ∈ (writeBack pkt notifyHost state status).2, Clear pkt bo write) ↔
      Spacious pkt bo := by
  constructor
  · intro clear
    obtain ⟨-, clear⟩ := clear .execbufXgq .new .skcrashed
    rw [writeBack, List.forall_mem_append] at clear
    refine ⟨fun opcode stat => ?_, fun opcode => ?_⟩
    · have enabled : timestampEnabled pkt = true := by simp [timestampEnabled, stat, opcode, startOpcodes]
      rw [timestampWrites, if_pos enabled] at clear
      -- the stamp of a crash goes farthest
      exact (clear.2 (timestampsAt pkt + 8 * 11, 8) (by simp [KdsStatus.toErt, ErtCmdState.toNat])).1
    · rw [if_pos opcode] at clear
      exact (returnCode_clear_iff accepted opcode).mp (clear.1 _ (List.mem_singleton_self _))
  · intro spacious notifyHost state status
    have stamps := timestamps_clear (timestamps_room accepted page spacious.keyVal)
    have header : 0 + 4 ≤ bo.size := Nat.le_trans (by decide) page
    have code : ∀ opcode : pkt.opcode = some .skStart, Clear pkt bo (returnCodeAt pkt, 4) :=
      fun opcode => (returnCode_clear_iff accepted opcode).mpr (spacious.skStart opcode)
    cases notifyHost with
    | execbuf =>
      rw [writeBack]
      split
      next opcode =>
        refine ⟨by simp, List.forall_mem_append.mpr ⟨?_, stamps state⟩⟩
        split
        · simp
        · simpa using code opcode
      · exact ⟨by simpa using header, stamps status.toErt⟩
    | execbufXgq =>
      refine ⟨by simpa [writeBack] using header, List.forall_mem_append.mpr ⟨?_, stamps status.toErt⟩⟩
      split
      next opcode => simpa using code opcode
      · simp

end Notification

theorem writeBack_within_startCu :
    (xgqCall 0x5011 [1, 0, 0, 0, 0]).copyAndValidateExecbuf (page true 0x5011 [1, 0, 0, 0, 0]) =
        some ⟨0x5011, [1, 0, 0, 0, 0]⟩ ∧
      ∀ notifyHost state status,
        (∀ write ∈ (writeBack ⟨0x5011, [1, 0, 0, 0, 0]⟩ notifyHost state status).1,
          write.1 + write.2 ≤ pageSize) ∧
        ∀ write ∈ (writeBack ⟨0x5011, [1, 0, 0, 0, 0]⟩ notifyHost state status).2,
          Clear ⟨0x5011, [1, 0, 0, 0, 0]⟩ (page true 0x5011 [1, 0, 0, 0, 0]) write := by
  have accepted : (xgqCall 0x5011 [1, 0, 0, 0, 0]).copyAndValidateExecbuf
      (page true 0x5011 [1, 0, 0, 0, 0]) = some ⟨0x5011, [1, 0, 0, 0, 0]⟩ := by decide
  exact ⟨accepted, (writeBack_within_iff accepted (by decide)).mpr ⟨by decide, by decide⟩⟩

/-- A page that is full of a list of registers: the time stamps are behind it. A PS kernel with a
second mask: the return code is written over its only argument. -/
theorem writeBack_outside :
    (∃ data, data.length = 1023 ∧
      (xgqCall 0x07BFF011 data).copyAndValidateExecbuf (page true 0x07BFF011 data) =
        some ⟨0x07BFF011, data⟩ ∧
      (pageSize + 8 * 4, 8) ∈ (writeBack ⟨0x07BFF011, data⟩ .execbufXgq .new .completed).2) ∧
      (xgqCall 0x04803401 [1, 0, 7]).copyAndValidateExecbuf (page true 0x04803401 [1, 0, 7]) =
        some ⟨0x04803401, [1, 0, 7]⟩ ∧
      (writeBack ⟨0x04803401, [1, 0, 7]⟩ .execbufXgq .new .completed).2 = [(4 * 3, 4)] := by
  refine ⟨⟨List.replicate 1023 0, List.length_replicate, ?_, ?_⟩, by decide, by decide⟩
  · decide +kernel
  · decide +kernel

end Xrt.Execbuf
