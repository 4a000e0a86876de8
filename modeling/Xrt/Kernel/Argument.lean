import Xrt.Lib.Ranges
import Xrt.Lib.Text

/-!
# Kernel arguments

The meta data of an argument, and how its value is placed in the payload of a start command: at the
offset of its registers for AP_CTRL_HS and AP_CTRL_CHAIN, in an entry of the descriptor for
FAST_ADAPTER.
-/
namespace Xrt.Kernel

open Lib

inductive Direction
  | input
  | output
deriving DecidableEq, Repr

/-- `kernel_argument`, as far as the payload depends on it. -/
structure Argument where
  name : Text
  offset : Nat
  size : Nat
  faDescOffset : Nat := 0
  dir : Direction
deriving DecidableEq, Repr

def Argument.setFaDescOffset (arg : Argument) (offset : Nat) : Argument :=
  { arg with faDescOffset := offset }

/-! ### Registers -/

namespace HsArgSetter

def setArgValue (data : List Byte) (arg : Argument) (value : List Byte) : List Byte :=
  patch data arg.offset (value.take arg.size)

variable {data value : List Byte} {arg : Argument}

theorem slice_setArgValue (inside : arg.offset ≤ data.length) (fits : value.length ≤ arg.size) :
    slice (setArgValue data arg value) arg.offset value.length = value := by
  rw [setArgValue, List.take_of_length_le fits, slice_patch_self value inside]

end HsArgSetter

/-! ### Descriptor entries -/

def sizeofFaDescriptor : Nat := 20

def sizeofFaDescEntry : Nat := 8

def Argument.entry (arg : Argument) : Range := ⟨arg.faDescOffset, arg.size + sizeofFaDescEntry⟩

namespace FaArgSetter

/-- Where the entry begins in the payload. The offset is counted in words from `data` of the
descriptor on. -/
def descEntry (arg : Argument) : Nat := sizeofFaDescriptor + 4 * (arg.faDescOffset / 4)

def setArgValue (data : List Byte) (arg : Argument) (value : List Byte) : List Byte :=
  let data := patch data (descEntry arg) (encodeLe 4 arg.offset)
  let data := patch data (descEntry arg + 4) (encodeLe 4 arg.size)
  patch data (descEntry arg + 8) (value.take arg.size)

def getArgValue (data : List Byte) (arg : Argument) : List Byte :=
  slice data (descEntry arg + 8) arg.size

/-- The bytes that are written: the offset, the size and the value, cut to the size. -/
def entryBytes (arg : Argument) (value : List Byte) : List Byte :=
  encodeLe 4 arg.offset ++ (encodeLe 4 arg.size ++ value.take arg.size)

variable {data value : List Byte} {arg other : Argument}

theorem length_entryBytes_le (arg : Argument) (value : List Byte) :
    (entryBytes arg value).length ≤ 8 + arg.size := by
  simp only [entryBytes, List.length_append, length_encodeLe, List.length_take]
  omega

theorem setArgValue_eq (inside : descEntry arg ≤ data.length) :
    setArgValue data arg value = patch data (descEntry arg) (entryBytes arg value) := by
  have offset := length_encodeLe 4 arg.offset
  have size := length_encodeLe 4 arg.size
  -- the three writes follow each other
  have first := patch_patch (encodeLe 4 arg.offset) (encodeLe 4 arg.size) inside
  have second := patch_patch (encodeLe 4 arg.offset ++ encodeLe 4 arg.size)
    (value.take arg.size) inside
  rw [offset] at first
  rw [setArgValue, first]
  exact second

theorem length_setArgValue (inside : descEntry arg + 8 + arg.size ≤ data.length) :
    (setArgValue data arg value).length = data.length := by
  have small := length_entryBytes_le arg value
  rw [setArgValue_eq (by omega), length_patch (by omega)]

theorem getArgValue_setArgValue (inside : descEntry arg + 8 + arg.size ≤ data.length) :
    getArgValue (setArgValue data arg value) arg
      = value.take arg.size ++ (getArgValue data arg).drop value.length := by
  let header := encodeLe 4 arg.offset ++ encodeLe 4 arg.size
  have eight : header.length = 8 := by simp [header]
  have length : (patch data (descEntry arg) header).length = data.length :=
    length_patch (by omega)
  have twice : setArgValue data arg value
      = patch (patch data (descEntry arg) header) (descEntry arg + 8) (value.take arg.size) := by
    rw [setArgValue_eq (by omega), entryBytes, ← List.append_assoc, ← eight,
      patch_patch header _ (by omega)]
  have behind : slice (patch data (descEntry arg) header) (descEntry arg + 8) arg.size
      = getArgValue data arg := slice_patch_after (by omega) (by omega)
  have short : (getArgValue data arg).length ≤ arg.size := List.length_take_le _ _
  rw [getArgValue, twice, slice_patch_front (List.length_take_le _ _) (by omega), behind,
    List.length_take]
  congr 1
  -- nothing is left behind a value that is too long
  rcases Nat.le_total value.length arg.size with fits | long
  · rw [Nat.min_eq_right fits]
  · rw [Nat.min_eq_left long, List.drop_of_length_le short, List.drop_of_length_le (by omega)]

theorem take_getArgValue_setArgValue (inside : descEntry arg + 8 + arg.size ≤ data.length) :
    (getArgValue (setArgValue data arg value) arg).take value.length = value.take arg.size := by
  have short : (getArgValue data arg).length ≤ arg.size := List.length_take_le _ _
  rw [getArgValue_setArgValue inside]
  rcases Nat.le_total value.length arg.size with fits | long
  · rw [List.take_of_length_le fits, List.take_left]
  · rw [List.drop_of_length_le (short.trans long), List.append_nil, List.take_take,
      Nat.min_eq_right long]

theorem slice_setArgValue_outside {start count : Nat}
    (inside : descEntry arg + 8 + arg.size ≤ data.length)
    (outside : start + count ≤ descEntry arg ∨ descEntry arg + 8 + arg.size ≤ start) :
    slice (setArgValue data arg value) start count = slice data start count := by
  have small := length_entryBytes_le arg value
  rw [setArgValue_eq (by omega)]
  rcases outside with before | after
  · exact slice_patch_before before (by omega)
  · exact slice_patch_after (by omega) (by omega)

end FaArgSetter

end Xrt.Kernel
