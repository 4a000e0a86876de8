import Xrt.Lib.CStrings
import Xrt.Lib.Run

/-!
# DTC images

A DTC image is a row of bytes: a header, a block of structure nodes and a block with the names of
the properties, to which the nodes refer by offset. This module has the strings block. A read outside
the image ends the run of the model.
-/
namespace Xrt.Fdt

open Lib

/-- The exceptions, one for each message. -/
inductive Thrown
  | emptyBuffer
  | notTerminated
  | lengthError
  | stringOffsetMismatch
  | stringOffset
deriving DecidableEq, Repr

/-- Why a parser does not return. -/
inductive Halt
  | thrown (message : Thrown)
  /-- A byte outside the image is read. -/
  | outside
  /-- The rounds that the model allows are used up. -/
  | hangs
deriving DecidableEq, Repr

def throws {α : Type} (message : Thrown) : Except Halt α := .error (.thrown message)

/-! ### Reading -/

def readBytes (img : List Byte) (pos count : Nat) : Except Halt (List Byte) :=
  if pos + count ≤ img.length then .ok (slice img pos count) else .error .outside

/-! ### The strings block -/

/-- `std::string::find`. -/
def find (haystack needle : List Byte) : Option Nat :=
  (List.range (haystack.length + 1)).find? fun i => needle.isPrefixOf (haystack.drop i)

def addString (block dtcString : List Byte) : List Byte × Nat :=
  match find block (dtcString ++ [0]) with
  | some index => (block, u32 index)
  | none => (block ++ (dtcString ++ [0]), u32 block.length)

def getString (block : List Byte) (offset : Nat) : Except Halt (List Byte) :=
  if block.length < offset then throws .stringOffset else .ok (cString (block.drop offset))

/-- The length of a string is passed on as a signed number; a negative one is too large for the
constructor of the string. -/
def constructString (img : List Byte) (pos len : Nat) : Except Halt (List Byte) :=
  if 2 ^ 31 ≤ len then throws .lengthError else readBytes img pos len

/-- The rounds over the bytes of the block. The round after a string begins behind the first byte
of the next one. -/
def parseStringsLoop (img : List Byte) (pBuffer size : Nat) :
    Nat → Nat → Nat → List Byte → Except Halt (List Byte)
  | 0, _, _, _ => .error .hangs
  | fuel + 1, index, lastIndex, block =>
    if index < size then do
      let byte ← readBytes img (pBuffer + index) 1
      if byte = [0] then do
        let dtcString ← constructString img (pBuffer + lastIndex) (u32 (index + 2 ^ 32 - lastIndex))
        let (block, offset) := addString block dtcString
        if offset ≠ lastIndex then throws .stringOffsetMismatch
        else parseStringsLoop img pBuffer size fuel (u32 (index + 2)) (u32 (index + 1)) block
      else parseStringsLoop img pBuffer size fuel (u32 (index + 1)) lastIndex block
    else .ok block

def parseDTCStringsBlock (img : List Byte) (pBuffer size : Nat) : Except Halt (List Byte) :=
  if size = 0 then throws .emptyBuffer
  else do
    let last ← readBytes img (pBuffer + (size - 1)) 1
    if last ≠ [0] then throws .notTerminated
    else parseStringsLoop img pBuffer size (size + 1) 0 0 []

end Xrt.Fdt
