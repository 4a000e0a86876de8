import Xrt.Lib.CountedRuns
import Xrt.Pdi.Cdo

/-!
# The transformation of a PDI

`XPdi_Compress_Transform` builds a second image with the same headers. Behind them stand the
command zone, in which neighbours with the same command share one id and one count, and the
data zone with what the DMA writes copy. The image is built in a buffer of twice the size of
the command list.
-/
namespace Xrt.Pdi

open Lib

/-! ### The command zone -/

/-- The words that a command takes in the command zone. -/
def CmdId.width : CmdId → Nat
  | .dmaWrite => 4
  | id => id.uses

/-- The zone while it is built: `cmdNum` is the place of the count of the last run. -/
structure CmdZone where
  words : List Word := []
  prevId : Option CmdId := none
  cmdNum : Nat := 0

def entry (id : CmdId) (off : Nat) (cmd : XCdoCmd) : List Word :=
  let p := fun i => cmd.payload.getD i 0
  match id with
  | .write => [p 0, p 1]
  | .maskWrite | .write64 => [p 0, p 1, p 2]
  | .maskWrite64 => [p 0, p 1, p 2, p 3]
  -- the place of the data in the old list, in bytes, and their number of words
  | .dmaWrite => [p 0, p 1, BitVec.ofNat 32 (4 * (off + 2)), BitVec.ofNat 32 cmd.payloadLen - 2]
  | .nop => []

def startRun (zone : CmdZone) (id : CmdId) : CmdZone :=
  if zone.prevId = some id then zone
  else ⟨zone.words ++ [id.code, 0], some id, zone.words.length + 1⟩

def xpdiParseCmd (zone : CmdZone) (id : CmdId) (off : Nat) (cmd : XCdoCmd) : CmdZone :=
  if id = .nop then zone
  else
    let zone := startRun zone id
    { zone with
      words := zone.words.set zone.cmdNum (zone.words.getD zone.cmdNum 0 + 1) ++ entry id off cmd }

/-- A command that is too long for the list makes `XPdi_Cmd_Parse` return 0, every other end of the
loop the length of the zone as far as it is built. -/
def xpdiCmdParse (buf : List Word) : List Word :=
  match walk buf.length 0 buf with
  | (_, some .tooLong) => []
  | (cs, _) => (cs.foldl (fun zone c => xpdiParseCmd zone c.id c.off c.cmd) {}).words

/-! ### The data zone -/

inductive NoImage
  /-- The PDI is in the new format and is only loaded. -/
  | transformed
  /-- The command list goes on behind the end of the PDI. -/
  | outside
  /-- The image is larger than the buffer it is written to. -/
  | overflow
  /-- The comparison with zero of no bytes at all runs on through the memory. -/
  | overrun
deriving DecidableEq, Repr

def isBss (addr : Word) : Bool := 0 < (addr &&& 0xFFFFF).toNat && (addr &&& 0xFFFFF).toNat < 0x10000

def allZero (data : List Word) : Except NoImage Bool :=
  if data = [] then .error .overrun else .ok (data.all (· == 0))

def zeroBss (addr : Word) (data : List Word) : Except NoImage Bool :=
  if isBss addr then allZero data else .ok false

/-- The rounds of a run of DMA writes: the entries as they are rewritten, and their data. The
data zone holds `off` words already. -/
def parseDma (buf : List Word) : Nat → Nat → List Word → Except NoImage (List Word × List Word)
  | 0, _, _ => .ok ([], [])
  | num + 1, off, zone => do
    let len := zone.getD 3 0
    let data := (buf.drop ((zone.getD 2 0).toNat / 4)).take (len &&& 0xFFFF).toNat
    let zero ← zeroBss (zone.getD 1 0) data
    let (entries, more) ← parseDma buf num (off + data.length) (zone.drop 4)
    .ok ([zone.getD 0 0, zone.getD 1 0, BitVec.ofNat 32 (4 * off),
      if zero then len ||| 0x10000 else len] ++ entries, data ++ more)

def xpdiBufParseLoop (buf : List Word) :
    Nat → Nat → List Word → Except NoImage (List Word × List Word)
  | fuel + 1, off, id :: num :: zone =>
    match CmdId.ofCode id with
    | some .dmaWrite => do
      let (entries, data) ← parseDma buf num.toNat off zone
      let (cmds, more) ←
        xpdiBufParseLoop buf fuel (off + data.length) (zone.drop (num.toNat * 4))
      .ok (id :: num :: (entries ++ cmds), data ++ more)
    | some .nop | none => do
      let (cmds, data) ← xpdiBufParseLoop buf fuel off zone
      .ok (id :: num :: cmds, data)
    | some plain => do
      let (cmds, data) ← xpdiBufParseLoop buf fuel off (zone.drop (num.toNat * plain.width))
      .ok (id :: num :: (zone.take (num.toNat * plain.width) ++ cmds), data)
  | _, _, zone => .ok (zone, [])

def xpdiBufParse (buf zone : List Word) : Except NoImage (List Word × List Word) :=
  xpdiBufParseLoop buf zone.length 0 zone

/-! ### The headers -/

/-- The image header table at 16 bytes, one image header and one partition header. -/
def hdrLen : Nat := (0x10 + 128 + 64 + 128) / 4

/-- The three words of the transform information, near the end of the partition header. -/
def tInfo : Nat := (0x10 + 128 + 64 + 112) / 4

def NOTRANFORM : Word := 0

def CMDDATASPERATE : Word := 1

def tInfoCheckSum (type cmdZoneLen : Word) : Word :=
  0x8866 ||| ((type &&& 0xFF) <<< 8 ||| type >>> 8)
    ||| ((cmdZoneLen &&& 0xFFFF) <<< 16 ||| cmdZoneLen >>> 16)

def xpdiHeaderSetTransformType (pdi : List Word) (type cmdZoneLen : Word) : List Word :=
  ((pdi.set tInfo type).set (tInfo + 1) cmdZoneLen).set (tInfo + 2) (tInfoCheckSum type cmdZoneLen)

/-- The type of the image and, if the check sum is right, the length of the command zone. -/
def xpdiHeaderTransformType (pdi : List Word) : Word × Word :=
  let type := pdi.getD tInfo 0
  let cmdZoneLen := pdi.getD (tInfo + 1) 0
  if pdi.getD (tInfo + 2) 0 = tInfoCheckSum type cmdZoneLen then (type, cmdZoneLen)
  else (NOTRANFORM, 0)

def imageOf (pdi zone cmds data : List Word) : List Word :=
  xpdiHeaderSetTransformType (pdi.take hdrLen) CMDDATASPERATE (BitVec.ofNat 32 (4 * zone.length))
    ++ (pdi.drop hdrLen).take cdoHdrLen ++ cmds ++ data

def xpdiCompressTransform (pdi : List Word) : Except NoImage (List Word) :=
  if (xpdiHeaderTransformType pdi).1 ≠ NOTRANFORM then .error .transformed
  else
    match parseBufFromCDO (pdi.drop hdrLen) with
    | .error _ => .error .outside
    | .ok buf => do
      let zone := xpdiCmdParse buf
      let (cmds, data) ← xpdiBufParse buf zone
      let image := imageOf pdi zone cmds data
      if buf.length * 2 < image.length then .error .overflow else .ok image

end Xrt.Pdi
