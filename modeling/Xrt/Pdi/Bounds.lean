import Xrt.Pdi.Image

/-!
# What a load and a transformation touch

The loader of a CDO takes the size of each command from the list itself, the transformation
writes into a buffer whose size it guesses from the length of the list, and the image that it
exports is shorter than the one it has tested.
-/
namespace Xrt.Pdi

open Lib

/-- A range of words, by its start and its length, is within the first `n`; a range of no words
is nowhere. -/
def Within (n : Nat) (range : Nat × Nat) : Prop := range.2 = 0 ∨ range.1 + range.2 ≤ n

variable {buf pdi : List Word} {c : Command}

/-- The ranges of a command lie in the list, by what stands behind its header. -/
theorem within_payload (placed : c.off + c.cmd.payload.length = buf.length) (k : Nat) :
    Within buf.length (c.off, k) ↔ k ≤ c.cmd.payload.length := by
  unfold Within
  dsimp only
  omega

/-! ### Loading a list -/

/-- The payload words that a command reads. `XCdo_DmaWrite` subtracts the two words of the address
from the length in 32 bits. -/
def payloadReads (id : CmdId) (payloadLen : Nat) : Nat :=
  match id with
  | .dmaWrite => 2 + (BitVec.ofNat 32 payloadLen - 2).toNat
  | id => id.uses

/-- The words that a round of `XCdo_LoadCdo` reads: the header, which may have a second word with a
long length, and the payload. -/
def loadReads (c : Command) : List (Nat × Nat) :=
  [(c.off - c.cmd.hdrLen, c.cmd.hdrLen), (c.off, payloadReads c.id c.cmd.payloadLen)]

/-- The loop of `XCdo_LoadCdo` is over after at most as many commands as there are words, and reads
nothing behind them. -/
def LoadsInside (buf : List Word) : Prop :=
  (walk buf.length 0 buf).2 ≠ some .hangs ∧ (walk buf.length 0 buf).2 ≠ some .outside
    ∧ ∀ c ∈ (walk buf.length 0 buf).1, ∀ range ∈ loadReads c, Within buf.length range

/-- The list goes on behind the header of a command for as many words as the function of the command
takes: two to four, and for a DMA write at least the two of its address and all that the header
announces. -/
def Carries (id : CmdId) (cmd : XCdoCmd) : Prop :=
  id.uses ≤ cmd.payload.length
    ∧ (id = .dmaWrite → 2 ≤ cmd.payloadLen ∧ cmd.payloadLen ≤ cmd.payload.length)

theorem payloadReads_le_iff {id : CmdId} {cmd : XCdoCmd} (len : cmd.payloadLen < 2 ^ 32)
    (short : cmd.payload.length < 2 ^ 32) :
    payloadReads id cmd.payloadLen ≤ cmd.payload.length ↔ Carries id cmd := by
  cases id with
  | dmaWrite =>
    have uses : CmdId.dmaWrite.uses = 2 := rfl
    simp only [payloadReads, Carries, uses, forall_const]
    by_cases two : 2 ≤ cmd.payloadLen
    · have plain : (BitVec.ofNat 32 cmd.payloadLen - 2#32).toNat = cmd.payloadLen - 2 := by
        bv_omega
      erw [plain]
      omega
    · -- the length has wrapped to nearly 2^32
      have wrapped : (BitVec.ofNat 32 cmd.payloadLen - 2#32).toNat
          = 2 ^ 32 + cmd.payloadLen - 2 := by
        bv_omega
      erw [wrapped]
      omega
  | _ => simp [payloadReads, Carries]

/-- The words of the list that the two passes read for a command: its header, its payload, and the
data of a DMA write. -/
def transformReads (c : Command) : List (Nat × Nat) :=
  let e := entry c.id c.off c.cmd
  [(c.off - c.cmd.hdrLen, c.cmd.hdrLen), (c.off, c.id.uses),
    ((e.getD 2 0).toNat / 4, dataLen (c.id, e))]

/-- The words of the image that are written: the headers of the PDI and of the CDO, the command
zone and the data zone. -/
def transformWrites (buf : List Word) : List (Nat × Nat) :=
  let zone := hdrLen + cdoHdrLen
  let data := zone + (xpdiCmdParse buf).length
  [(0, hdrLen), (hdrLen, cdoHdrLen), (zone, (xpdiCmdParse buf).length),
    (data, ((walk buf.length 0 buf).1.map fun c => dataLen (c.id, entry c.id c.off c.cmd)).sum)]

/-- `XPdi_Compress_Transform` writes and reads inside its buffers, and every comparison of data with
zero has data to look at. -/
structure TransformsInside (buf : List Word) : Prop where
  header : (walk buf.length 0 buf).2 ≠ some .outside
  writes : ∀ range ∈ transformWrites buf, Within (2 * buf.length) range
  commands : ∀ c ∈ (walk buf.length 0 buf).1, (∀ range ∈ transformReads c, Within buf.length range)
    ∧ (c.id = .dmaWrite → zeroBss (c.cmd.payload.getD 1 0)
      ((buf.drop (c.off + 2)).take (dataWords (entry c.id c.off c.cmd))) ≠ .error .overrun)

/-- The list goes on behind the header of a command for as many words as its entry takes, and behind
the address of a DMA write for the 16 bits of its length that are copied. These are not zero if the
address is in the bss. -/
def Copies (id : CmdId) (cmd : XCdoCmd) : Prop :=
  id.uses ≤ cmd.payload.length
    ∧ (id = .dmaWrite →
      2 + (BitVec.ofNat 32 cmd.payloadLen - 2 &&& 0xFFFF).toNat ≤ cmd.payload.length
      ∧ (isBss (cmd.payload.getD 1 0) → BitVec.ofNat 32 cmd.payloadLen - 2 &&& 0xFFFF ≠ 0))

/-- The words of the two zones: an id and a count where the command is another than before, NOPs
apart, and for every command its entry and its data. -/
def zoneWords : Option CmdId → List Command → Nat
  | _, [] => 0
  | prev, c :: cs =>
    if c.id = .nop then zoneWords prev cs
    else (if prev = some c.id then 0 else 2) + c.id.width
      + dataLen (c.id, entry c.id c.off c.cmd) + zoneWords (some c.id) cs

theorem length_parseCmds (cs : List Command) (zone : CmdZone) :
    (cs.foldl (fun zone c => xpdiParseCmd zone c.id c.off c.cmd) zone).words.length
        + (cs.map fun c => dataLen (c.id, entry c.id c.off c.cmd)).sum
      = zone.words.length + zoneWords zone.prevId cs := by
  induction cs generalizing zone with
  | nil => simp [zoneWords]
  | cons c cs ih =>
    have rest := ih (xpdiParseCmd zone c.id c.off c.cmd)
    simp only [List.foldl_cons, List.map_cons, List.sum_cons, zoneWords]
    by_cases nop : c.id = .nop
    · have same : xpdiParseCmd zone c.id c.off c.cmd = zone := if_pos nop
      rw [same] at rest ⊢
      rw [if_pos nop, nop]
      change _ + (0 + _) = _
      omega
    · have prev : (xpdiParseCmd zone c.id c.off c.cmd).prevId = some c.id := by
        rw [xpdiParseCmd, if_neg nop, startRun]
        split
        · assumption
        · rfl
      have one : (xpdiParseCmd zone c.id c.off c.cmd).words.length
          = zone.words.length + (if zone.prevId = some c.id then 0 else 2) + c.id.width := by
        rw [xpdiParseCmd, if_neg nop, startRun]
        simp only [List.length_append, List.length_set, length_entry]
        split <;> simp
      rw [prev] at rest
      rw [if_neg nop]
      omega

/-- The four ranges of the image are inside, if the last word of the zones is. -/
theorem transformWrites_within_iff (accepted : (walk buf.length 0 buf).2 ≠ some .tooLong) :
    (∀ range ∈ transformWrites buf, Within (2 * buf.length) range)
      ↔ hdrLen + cdoHdrLen + zoneWords none (walk buf.length 0 buf).1 ≤ 2 * buf.length := by
  have zone : (xpdiCmdParse buf).length
      + ((walk buf.length 0 buf).1.map fun c => dataLen (c.id, entry c.id c.off c.cmd)).sum
      = zoneWords none (walk buf.length 0 buf).1 := by
    have parse : xpdiCmdParse buf = ((walk buf.length 0 buf).1.foldl
        (fun zone c => xpdiParseCmd zone c.id c.off c.cmd) {}).words := by
      rw [xpdiCmdParse]
      split
      next stop => exact absurd (congrArg Prod.snd stop) accepted
      next found => rw [found]
    rw [parse, length_parseCmds, Nat.add_eq_right]
    rfl
  have headers : 0 < cdoHdrLen := by decide
  simp only [transformWrites, List.forall_mem_cons, List.not_mem_nil, false_implies, implies_true,
    and_true, Within]
  omega

theorem copies_iff (c : Command) (header : c.cmd.hdrLen ≤ c.off)
    (placed : c.off + c.cmd.payload.length = buf.length) (small : 8 * buf.length ≤ 2 ^ 32) :
    ((∀ range ∈ transformReads c, Within buf.length range)
        ∧ (c.id = .dmaWrite → zeroBss (c.cmd.payload.getD 1 0)
          ((buf.drop (c.off + 2)).take (dataWords (entry c.id c.off c.cmd))) ≠ .error .overrun))
      ↔ Copies c.id c.cmd := by
  have head : Within buf.length (c.off - c.cmd.hdrLen, c.cmd.hdrLen) :=
    Or.inr (by dsimp only; omega)
  simp only [transformReads, List.forall_mem_cons, List.not_mem_nil, false_implies, implies_true,
    and_true, head, true_and, within_payload placed, Copies]
  cases known : c.id with
  | dmaWrite =>
    have two : CmdId.dmaWrite.uses = 2 := rfl
    have place : (BitVec.ofNat 32 (4 * (c.off + 2))).toNat / 4 = c.off + 2 := by
      rw [BitVec.toNat_ofNat]
      omega
    have count : dataWords (entry .dmaWrite c.off c.cmd)
      = (BitVec.ofNat 32 c.cmd.payloadLen - 2 &&& 0xFFFF).toNat := rfl
    have source : ((entry .dmaWrite c.off c.cmd).getD 2 0).toNat / 4 = c.off + 2 := place
    rw [source, two, dataLen, count]
    generalize BitVec.ofNat 32 c.cmd.payloadLen - 2 &&& 0xFFFF = words
    have data : (buf.drop (c.off + 2)).take words.toNat = []
        ↔ words = 0 ∨ buf.length ≤ c.off + 2 := by
      rw [List.take_eq_nil_iff, List.drop_eq_nil_iff, ← BitVec.toNat_inj]
      rfl
    have compared : zeroBss (c.cmd.payload.getD 1 0) ((buf.drop (c.off + 2)).take words.toNat)
        ≠ .error .overrun
        ↔ (isBss (c.cmd.payload.getD 1 0) → ¬ (words = 0 ∨ buf.length ≤ c.off + 2)) := by
      rw [← data, zeroBss, allZero]
      split_ifs <;> simp_all
    have zero : words = 0 ↔ words.toNat = 0 := by
      rw [← BitVec.toNat_inj]
      rfl
    simp only [forall_const, compared, Within, zero, ne_eq]
    by_cases bss : isBss (c.cmd.payload.getD 1 0)
    · simp only [bss, true_implies]
      omega
    · simp only [bss, false_implies, Bool.false_eq_true, and_true]
      omega
  | _ => simp [dataLen, Within]

/-- **The transformation stays inside its buffers exactly if** the list carries what its commands
take, and the 89 words of the headers and the two zones are no more than twice the list. The byte
counts of the zones have 32 bits. -/
theorem xpdiCompressTransform_within_iff (small : 8 * buf.length ≤ 2 ^ 32)
    (accepted : (walk buf.length 0 buf).2 ≠ some .tooLong)
    (ends : (walk buf.length 0 buf).2 ≠ some .hangs) :
    TransformsInside buf ↔ Tidy Copies buf
      ∧ hdrLen + cdoHdrLen + zoneWords none (walk buf.length 0 buf).1 ≤ 2 * buf.length := by
  rw [← walk_tidy_iff 0 (le_refl buf.length), ← transformWrites_within_iff accepted]
  have each : ∀ c ∈ (walk buf.length 0 buf).1, _ ↔ Copies c.id c.cmd := fun c member =>
    have placed := walk_placed 0 buf rfl (Nat.zero_le _) c member
    copies_iff c placed.1 placed.2.1 small
  constructor
  · exact fun inside => ⟨⟨ends, inside.header, fun c member =>
      (each c member).mp (inside.commands c member)⟩, inside.writes⟩
  · rintro ⟨⟨_, header, copies⟩, writes⟩
    exact ⟨header, writes, fun c member => (each c member).mpr (copies c member)⟩

/-- Sixty NOPs and a write of 0xAB to 0x10. -/
def paddedWrite : List Word := List.replicate 60 0x11 ++ [0x00020003, 0x10, 0xAB]

theorem xpdiCompressTransform_within_writes :
    TransformsInside (List.flatten (List.replicate 30 [0x00020003, 0x10, 0xAB])) := by
  have tidy : ∀ n, Tidy Copies (List.flatten (List.replicate n [0x00020003, 0x10, 0xAB])) := by
    intro n
    induction n with
    | zero => exact .nil
    | succ n ih =>
      have copies : Copies .write ⟨1, 3, 2, [0x10, 0xAB]
          ++ List.flatten (List.replicate n [0x00020003, 0x10, 0xAB])⟩ :=
        ⟨by simp [CmdId.uses], by simp⟩
      exact .command rfl rfl (by simp) copies ih
  exact (xpdiCompressTransform_within_iff (by decide) (by decide +kernel) (by decide +kernel)).mpr
    ⟨tidy 30, by decide +kernel⟩

/-- The headers alone do not fit behind a list of three words, and the payload of a write without
one is read behind the list. -/
theorem xpdiCompressTransform_outside :
    ((walk 3 0 [0x00020003, 0x10, 0xAB]).2 = none ∧ ¬ TransformsInside [0x00020003, 0x10, 0xAB])
      ∧ (walk 1 0 [3]).2 = none ∧ ¬ TransformsInside [3] := by
  refine ⟨⟨by decide, fun inside => ?_⟩, by decide, fun inside => ?_⟩
  · exact absurd (inside.writes (0, hdrLen) List.mem_cons_self) (by simp [Within, hdrLen])
  · have reads := (inside.commands ⟨.write, 1, 1, 1, 0, []⟩ List.mem_cons_self).1
    exact absurd (reads (1, 2) (by simp [transformReads, CmdId.uses])) (by simp [Within])

/-! ### The exported image -/

/-- `PdiLen`, in bytes: the headers of the PDI and the two zones. -/
def exportedLen (cmds data : List Word) : Nat := 4 * (hdrLen + cmds.length + data.length) % 2 ^ 32

/-- What `XPdi_Export` writes of the image. -/
def xpdiExport (pdi zone cmds data : List Word) : List Word :=
  (imageOf pdi zone cmds data).take (exportedLen cmds data / 4)

/-- **`PdiLen` is always less than the headers, the command zone and the data zone:** the exported
image breaks off at least as many words before the end as the header of the CDO has. -/
theorem xpdiExport_incomplete (listed : parseBufFromCDO (pdi.drop hdrLen) = .ok buf)
    (zone cmds data : List Word) :
    ¬ 4 * (hdrLen + cdoHdrLen + cmds.length + data.length) ≤ exportedLen cmds data
      ∧ ∃ missing, cdoHdrLen ≤ missing.length
        ∧ imageOf pdi zone cmds data = xpdiExport pdi zone cmds data ++ missing := by
  have long := parseBufFromCDO_long listed
  have length : (imageOf pdi zone cmds data).length = _ := length_imageOf (by omega)
  have cut := Nat.mod_le (4 * (hdrLen + cmds.length + data.length)) (2 ^ 32)
  have hdr : cdoHdrLen = 5 := rfl
  refine ⟨by unfold exportedLen; omega, _, ?_, (List.take_append_drop _ _).symm⟩
  rw [List.length_drop, length, exportedLen]
  omega

/-- With zeros behind it the exported image of one write does nothing. -/
theorem xpdiExport_not_contained :
    xpdiBufParse paddedWrite (xpdiCmdParse paddedWrite) = .ok ([3, 1, 0x10, 0xAB], [])
      ∧ xpdiLoad 0 (imageOf (pdiOf paddedWrite) (xpdiCmdParse paddedWrite) [3, 1, 0x10, 0xAB] [])
        = .ok [.write32 0x10 0xAB]
      ∧ xpdiLoad 0 (xpdiExport (pdiOf paddedWrite) (xpdiCmdParse paddedWrite) [3, 1, 0x10, 0xAB] []
        ++ List.replicate 5 0) = .ok [] := by
  decide +kernel

theorem xpdiExport_incomplete_padded :
    ¬ 4 * (hdrLen + cdoHdrLen + 4 + 0) ≤ exportedLen [3, 1, 0x10, 0xAB] [] := by
  have listed : parseBufFromCDO ((pdiOf paddedWrite).drop hdrLen) = .ok paddedWrite := by
    decide +kernel
  exact (xpdiExport_incomplete listed [] [3, 1, 0x10, 0xAB] []).1

end Xrt.Pdi
