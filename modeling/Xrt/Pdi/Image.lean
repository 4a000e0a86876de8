import Xrt.Pdi.TransLoad

/-!
# The image of a transformation

The first pass goes over the commands of the list, and the new image has the headers, which say how long
the command zone is, the zone and the data of the DMA writes.
-/
namespace Xrt.Pdi

open Lib

variable {buf pdi : List Word}

theorem length_entry (id : CmdId) (off : Nat) (cmd : XCdoCmd) :
    (entry id off cmd).length = id.width := by
  cases id <;> rfl

def dataWords (entry : List Word) : Nat := (entry.getD 3 0 &&& 0xFFFF).toNat

def dataLen : CmdId × List Word → Nat
  | (.dmaWrite, entry) => dataWords entry
  | _ => 0

/-! ### The headers -/

theorem xpdiHeaderTransformType_marked (header rest : List Word) (type cmdZoneLen : Word)
    (len : header.length = hdrLen) :
    xpdiHeaderTransformType (xpdiHeaderSetTransformType header type cmdZoneLen ++ rest)
      = (type, cmdZoneLen) := by
  have inside : tInfo + 2 < header.length := by rw [len]; decide
  -- three words of the header are overwritten, the last one with the check sum
  have word : ∀ i w, (xpdiHeaderSetTransformType header type cmdZoneLen)[i]? = some w →
      (xpdiHeaderSetTransformType header type cmdZoneLen ++ rest).getD i 0 = w := by
    intro i w found
    rw [List.getD_eq_getElem?_getD,
      List.getElem?_append_left (List.getElem?_eq_some_iff.mp found).1, found]
    rfl
  have word0 := word tInfo type (by
    simp [xpdiHeaderSetTransformType, Nat.lt_of_succ_lt (Nat.lt_of_succ_lt inside)])
  have word1 := word (tInfo + 1) cmdZoneLen (by
    simp [xpdiHeaderSetTransformType, Nat.lt_of_succ_lt inside])
  have word2 := word (tInfo + 2) (tInfoCheckSum type cmdZoneLen) (by
    simp [xpdiHeaderSetTransformType, inside])
  simp only [xpdiHeaderTransformType, word0, word1, word2, if_true]

/-! ### The image -/

theorem parseBufFromCDO_long (listed : parseBufFromCDO (pdi.drop hdrLen) = .ok buf) :
    hdrLen + cdoHdrLen + buf.length ≤ pdi.length := by
  unfold parseBufFromCDO at listed
  dsimp only at listed
  split at listed
  · cases listed
  next fits =>
    cases listed
    rw [List.length_drop] at fits
    have len := List.length_take_le ((pdi.drop hdrLen).getD 3 0).toNat
      ((pdi.drop hdrLen).drop cdoHdrLen)
    have hdr : cdoHdrLen = 5 := rfl
    omega

theorem length_imageOf {zone cmds data : List Word} (long : hdrLen + cdoHdrLen ≤ pdi.length) :
    (imageOf pdi zone cmds data).length = hdrLen + cdoHdrLen + cmds.length + data.length := by
  simp only [imageOf, xpdiHeaderSetTransformType, List.length_append, List.length_set,
    List.length_take, List.length_drop]
  omega

/-- The image that a compression leaves is marked as one, so that it is not compressed again. -/
theorem xpdiCompressTransform_once (pdi : List Word) :
    xpdiCompressTransform pdi >>= xpdiCompressTransform
      = xpdiCompressTransform pdi >>= fun _ => .error .transformed := by
  cases made : xpdiCompressTransform pdi with
  | error e => rfl
  | ok image =>
    unfold xpdiCompressTransform at made
    split_ifs at made
    split at made
    · cases made
    next buf parsed =>
      have long : hdrLen ≤ pdi.length := by
        by_contra short
        rw [List.drop_eq_nil_of_le (by omega)] at parsed
        cases parsed
      cases zones : xpdiBufParse buf (xpdiCmdParse buf) with
      | error e => simp [zones, bind, Except.bind] at made
      | ok parts =>
        simp only [zones, bind, Except.bind] at made
        split_ifs at made
        cases made
        have marked := xpdiHeaderTransformType_marked _
          ((pdi.drop hdrLen).take cdoHdrLen ++ (parts.1 ++ parts.2)) CMDDATASPERATE
          (BitVec.ofNat 32 (4 * (xpdiCmdParse buf).length)) (List.length_take_of_le long)
        change xpdiCompressTransform _ = .error .transformed
        rw [xpdiCompressTransform, imageOf, List.append_assoc, List.append_assoc, marked]
        rfl

/-- A PDI with the command list `buf` and empty headers. -/
def pdiOf (buf : List Word) : List Word :=
  List.replicate 87 0 ++ ([BitVec.ofNat 32 buf.length, 0] ++ buf)

end Xrt.Pdi
