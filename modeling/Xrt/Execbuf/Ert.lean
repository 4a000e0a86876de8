import Mathlib.Algebra.Group.Nat.Defs
import Mathlib.Data.List.Basic

/-!
# ERT packets

The packet in an exec buffer: a header of bit fields and `count` words of data. What each
opcode asks of the rest of the packet is checked before the driver looks at it.
-/
namespace Xrt.Execbuf

/-- `enum ert_cmd_opcode`. -/
inductive ErtOpcode where
  | startCu
  | configure
  | exit
  | abort
  | execWrite
  | cuStat
  | startCopybo
  | skConfig
  | skStart
  | skUnconfig
  | initCu
  | startFa
  | clkCalib
  | mbValidate
  | startKeyVal
  | accessTestC
  | accessTest
  | startDpu
  | cmdChain
  | startNpu
  | startNpuPreempt
  deriving DecidableEq, Repr

def ErtOpcode.ofBits (bits : BitVec 5) : Option ErtOpcode :=
  match bits.toNat with
  | 0 => some .startCu
  | 2 => some .configure
  | 3 => some .exit
  | 4 => some .abort
  | 5 => some .execWrite
  | 6 => some .cuStat
  | 7 => some .startCopybo
  | 8 => some .skConfig
  | 9 => some .skStart
  | 10 => some .skUnconfig
  | 11 => some .initCu
  | 12 => some .startFa
  | 13 => some .clkCalib
  | 14 => some .mbValidate
  | 15 => some .startKeyVal
  | 16 => some .accessTestC
  | 17 => some .accessTest
  | 18 => some .startDpu
  | 19 => some .cmdChain
  | 20 => some .startNpu
  | 21 => some .startNpuPreempt
  | _ => none

/-- `enum ert_cmd_state`, as the driver writes it to the packet of the user. -/
inductive ErtCmdState where
  | new
  | queued
  | running
  | completed
  | error
  | abort
  | submitted
  | timeout
  | noresponse
  | skerror
  | skcrashed
  deriving DecidableEq, Repr

def ErtCmdState.toNat : ErtCmdState → Nat
  | .new => 1
  | .queued => 2
  | .running => 3
  | .completed => 4
  | .error => 5
  | .abort => 6
  | .submitted => 7
  | .timeout => 8
  | .noresponse => 9
  | .skerror => 10
  | .skcrashed => 11

/-- `state >= ERT_CMD_STATE_COMPLETED`. -/
def ErtCmdState.IsCompleted (state : ErtCmdState) : Prop :=
  ErtCmdState.completed.toNat ≤ state.toNat

instance (state : ErtCmdState) : Decidable state.IsCompleted :=
  inferInstanceAs (Decidable (_ ≤ _))

/-- `struct ert_packet`. Behind the data the copy of the driver is zero. -/
structure ErtPacket where
  header : BitVec 32
  data : List (BitVec 32)
  deriving DecidableEq, Repr

namespace ErtPacket

variable (pkt : ErtPacket)

def statEnabled : Bool := pkt.header.getLsbD 4
def extraCuMasks : Nat := (pkt.header.extractLsb' 10 2).toNat
def count : Nat := (pkt.header.extractLsb' 12 11).toNat
def opcode : Option ErtOpcode := ErtOpcode.ofBits (pkt.header.extractLsb' 23 5)
def word (i : Nat) : Nat := (pkt.data.getD i 0).toNat

def size : Nat := 4 + pkt.count * 4

/-- Two words as one number of 64 bits. -/
def word64 (hi lo : Nat) : Nat := pkt.word hi * 2 ^ 32 + pkt.word lo

def ertValidOpcode : Bool :=
  match pkt.opcode with
  | some .startCu => pkt.extraCuMasks + 1 + 4 ≤ pkt.count
  | some .startDpu => 1 + pkt.extraCuMasks + 4 ≤ pkt.count
  | some .cmdChain => pkt.count = (pkt.word 0 * 8 + 24) / 4
  | some .startNpu => 1 + pkt.extraCuMasks + 4 ≤ pkt.count
  | some .startNpuPreempt => 1 + pkt.extraCuMasks + 10 ≤ pkt.count
  | some .startKeyVal => pkt.extraCuMasks + 1 ≤ pkt.count
  | some .execWrite => pkt.extraCuMasks + 1 + 6 ≤ pkt.count
  | some .startFa => pkt.extraCuMasks + 1 ≤ pkt.count
  | some .skStart => pkt.extraCuMasks + 1 + 1 ≤ pkt.count
  -- the sum is computed in 32 bits
  | some .configure => (5 + pkt.word 1) % 2 ^ 32 ≤ pkt.count
  | some .startCopybo => pkt.count = 16
  | some .initCu => pkt.extraCuMasks + 9 + 4 ≤ pkt.count
  | some .skConfig => pkt.count = 28 * pkt.word 0 / 4 + 1
  | some .clkCalib | some .mbValidate | some .accessTestC | some .cuStat | some .exit
  | some .abort => true
  | some .skUnconfig | some .accessTest | none => false

/-- `get_size_with_timestamps_or_zero`: the time stamps follow the packet at the next
multiple of eight bytes, one for each command state. -/
def sizeWithTimestampsOrZero : Nat :=
  match pkt.opcode with
  | some .startCu | some .execWrite | some .startFa | some .skStart =>
    if pkt.statEnabled then (pkt.size + 7) / 8 * 8 + 12 * 8 else 0
  | _ => 0

end ErtPacket

end Xrt.Execbuf
