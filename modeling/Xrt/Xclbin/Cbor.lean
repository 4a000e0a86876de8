import Xrt.Lib.Reader

/-!
# CBOR items

The encoding of the head of a CBOR item (its major type and a count) and of strings, and the
functions that read them back from a stream.
-/
namespace Xrt.Xclbin

open Lib

inductive MajorType
  | positiveInteger
  | negativeInteger
  | byteString
  | textString
  | arrayOfItems
  | mapOfItems
  | semanticTag
  | primitives
deriving DecidableEq, Repr

namespace MajorType

def value : MajorType → BitVec 8
  | positiveInteger => 0
  | negativeInteger => 1
  | byteString => 2
  | textString => 3
  | arrayOfItems => 4
  | mapOfItems => 5
  | semanticTag => 6
  | primitives => 7

/-- The cast of the three bits of a head. -/
def ofValue (v : BitVec 8) : MajorType :=
  match v.toNat with
  | 0 => positiveInteger
  | 1 => negativeInteger
  | 2 => byteString
  | 3 => textString
  | 4 => arrayOfItems
  | 5 => mapOfItems
  | 6 => semanticTag
  | _ => primitives

end MajorType

/-- The exceptions, one for each message. -/
inductive CborError
  | primitiveNotSupported
  | unexpectedEnd
  | unsupportedPayload (value : Nat)
  | keyNotString
  | rootKeyNotString
  | semanticTag
  | primitives
  | notMapOfItems
  | nonHexInput
  | notEnoughInput
  /-- the depth that the model allows is used up -/
  | depth
deriving DecidableEq, Repr

abbrev CborReader (α : Type) := Reader Byte CborError α

/-! ### Encoding -/

/-- The bytes of a count, the highest one first: the loop over `shiftCount`. -/
def countBytes : Nat → Nat → List Byte
  | 0, _ => []
  | shiftCount + 1, count => BitVec.ofNat 8 (count >>> (shiftCount * 8)) :: countBytes shiftCount count

def numBytes (count : Nat) : Nat :=
  if count ≤ 0xff then 0 else if count ≤ 0xffff then 1 else if count ≤ 0xffffffff then 2 else 3

def headBytes (majorType : MajorType) (count : Nat) : List Byte :=
  let head := majorType.value <<< 5
  if count ≤ 23 then [head ||| BitVec.ofNat 8 (count &&& 0x1F)]
  else
    let n := numBytes count
    (head ||| 0x18 ||| BitVec.ofNat 8 n) :: countBytes (1 <<< n) count

def encodeMajorType (majorType : MajorType) (count : Nat) : Except CborError (List Byte) :=
  if majorType = .primitives then throw .primitiveNotSupported else pure (headBytes majorType count)

def encodePositiveInteger (value : Nat) : Except CborError (List Byte) :=
  encodeMajorType .positiveInteger value

def encodeNegativeInteger (value : Nat) : Except CborError (List Byte) :=
  encodeMajorType .negativeInteger value

def encodeTextString (text : List Byte) : Except CborError (List Byte) := do
  pure ((← encodeMajorType .textString text.length) ++ text)

def encodeByteString (bytes : List Byte) : Except CborError (List Byte) := do
  pure ((← encodeMajorType .byteString bytes.length) ++ bytes)

/-! ### Decoding -/

def getString (size : Nat) : CborReader (List Byte) := Reader.take .unexpectedEnd size

def getChar : CborReader Byte := do
  let bytes ← Reader.take .unexpectedEnd 1
  pure (bytes.headD 0)

/-- The loop that puts a count of 64 bits together. -/
def getCount : Nat → Nat → CborReader Nat
  | 0, count => pure count
  | payloadBytes + 1, count => do
    let aByte ← getChar
    getCount payloadBytes (((count <<< 8) % 2 ^ 64 + aByte.toNat) % 2 ^ 64)

def getNextTypeAndCount : CborReader (MajorType × Nat) := do
  let commandByte ← getChar
  let majorType := MajorType.ofValue (commandByte >>> 5)
  if commandByte &&& 0x18 = 0x18 then
    let payloadBytes := 1 <<< (commandByte &&& 0x7).toNat
    if payloadBytes > 8 then Reader.fail (.unsupportedPayload (payloadBytes - 1))
    else
      let count ← getCount payloadBytes 0
      pure (majorType, count)
  else pure (majorType, (commandByte &&& 0x1F).toNat)

/-! ### Heads are read back -/

theorem reads_getChar (b : Byte) : Reads getChar [b] b := by
  have taken : Reads (Reader.take CborError.unexpectedEnd 1) [b] [b] := reads_take _ [b]
  exact taken.map (·.headD 0)

theorem reads_getString (bytes : List Byte) : Reads (getString bytes.length) bytes bytes :=
  reads_take _ bytes

theorem reads_getCount (k count : Nat) {acc : Nat} (fits : (acc + 1) * 256 ^ k ≤ 2 ^ 64) :
    Reads (getCount k acc) (countBytes k count) (acc * 256 ^ k + count % 256 ^ k) := by
  induction k generalizing acc with
  | zero =>
    simp only [Nat.pow_zero, Nat.mod_one, Nat.mul_one, Nat.add_zero]
    exact reads_pure acc
  | succ k ih =>
    have byte : (BitVec.ofNat 8 (count >>> (k * 8))).toNat = count / 256 ^ k % 256 := by
      rw [BitVec.toNat_ofNat, Nat.shiftRight_eq_div_pow, Nat.mul_comm k 8, Nat.pow_mul]
    have power : 0 < 256 ^ k := Nat.pow_pos (by decide)
    have room : (acc + 1) * 256 * 256 ^ k ≤ 2 ^ 64 := by
      rw [Nat.pow_succ, Nat.mul_comm (256 ^ k), ← Nat.mul_assoc] at fits
      exact fits
    have small : (acc + 1) * 256 ≤ 2 ^ 64 := (Nat.le_mul_of_pos_right _ power).trans room
    have shifted : ((acc <<< 8) % 2 ^ 64 + (BitVec.ofNat 8 (count >>> (k * 8))).toNat) % 2 ^ 64
        = acc * 256 + count / 256 ^ k % 256 := by
      omega
    have next : (acc * 256 + count / 256 ^ k % 256 + 1) * 256 ^ k ≤ 2 ^ 64 :=
      (Nat.mul_le_mul_right _ (by omega)).trans room
    have later := ih next
    have value : (acc * 256 + count / 256 ^ k % 256) * 256 ^ k + count % 256 ^ k
        = acc * 256 ^ (k + 1) + count % 256 ^ (k + 1) := by
      rw [Nat.mod_pow_succ, Nat.pow_succ]
      ring
    rw [value] at later
    refine (reads_getChar _).bind ?_
    rw [shifted]
    exact later

theorem tiny_head (t : MajorType) (count : Fin 24) :
    let byte := t.value <<< 5 ||| BitVec.ofNat 8 (count.val &&& 0x1F)
    byte &&& 0x18 ≠ 0x18 ∧ MajorType.ofValue (byte >>> 5) = t ∧ (byte &&& 0x1F).toNat = count := by
  revert count
  cases t <;> decide

theorem long_head (t : MajorType) (n : Fin 4) :
    let byte := t.value <<< 5 ||| 0x18 ||| BitVec.ofNat 8 n
    byte &&& 0x18 = 0x18 ∧ MajorType.ofValue (byte >>> 5) = t ∧ (byte &&& 0x7).toNat = n := by
  revert n
  cases t <;> decide

theorem numBytes_spec {count : Nat} (bounded : count < 2 ^ 64) :
    numBytes count < 4 ∧ count < 256 ^ (1 <<< numBytes count) := by
  unfold numBytes
  split_ifs with one two four
  · exact ⟨by decide, one.trans_lt (by decide)⟩
  · exact ⟨by decide, two.trans_lt (by decide)⟩
  · exact ⟨by decide, four.trans_lt (by decide)⟩
  · exact ⟨by decide, bounded.trans_le (by decide)⟩

theorem reads_head (t : MajorType) {count : Nat} (bounded : count < 2 ^ 64) :
    Reads getNextTypeAndCount (headBytes t count) (t, count) := by
  unfold headBytes getNextTypeAndCount
  split
  · obtain ⟨short, major, value⟩ := tiny_head t ⟨count, by omega⟩
    have last : ∀ byte : Byte, [byte] = [byte] ++ [] := fun _ => rfl
    refine (reads_getChar _).bind ?_
    rw [if_neg short, major, value]
    exact reads_pure (t, count)
  · obtain ⟨small, fits⟩ := numBytes_spec bounded
    obtain ⟨long, major, payload⟩ := long_head t ⟨numBytes count, small⟩
    have eight : ¬ 1 <<< numBytes count > 8 := by
      have : ∀ n : Fin 4, ¬ 1 <<< n.val > 8 := by decide
      exact this ⟨numBytes count, small⟩
    have room : (0 + 1) * 256 ^ (1 <<< numBytes count) ≤ 2 ^ 64 := by
      have : ∀ n : Fin 4, (0 + 1) * 256 ^ (1 <<< n.val) ≤ 2 ^ 64 := by decide
      exact this ⟨numBytes count, small⟩
    have counted := reads_getCount (1 <<< numBytes count) count room
    rw [Nat.zero_mul, Nat.zero_add, Nat.mod_eq_of_lt fits] at counted
    refine (reads_getChar _).bind ?_
    rw [if_pos long, payload, if_neg eight, major]
    exact counted.map (t, ·)

/-! ### Hexadecimal strings -/

/-- The digits of `boost::algorithm::hex`. -/
def hexDigit (n : Nat) : Byte := BitVec.ofNat 8 (if n < 10 then 0x30 + n else 0x37 + n)

def hex (bytes : List Byte) : List Byte :=
  bytes.flatMap fun b => [hexDigit (b.toNat / 16), hexDigit (b.toNat % 16)]

/-- The value of a hexadecimal digit in either case. -/
def hexValue (c : Byte) : Option Nat :=
  let n := c.toNat
  if 0x30 ≤ n ∧ n ≤ 0x39 then some (n - 0x30)
  else if 0x41 ≤ n ∧ n ≤ 0x46 then some (n - 0x37)
  else if 0x61 ≤ n ∧ n ≤ 0x66 then some (n - 0x57)
  else none

def unhex : List Byte → Except CborError (List Byte)
  | [] => pure []
  | [c] => if (hexValue c).isSome then throw .notEnoughInput else throw .nonHexInput
  | c :: d :: rest =>
    match hexValue c, hexValue d with
    | some high, some low => do pure (BitVec.ofNat 8 (16 * high + low) :: (← unhex rest))
    | _, _ => throw .nonHexInput

def isUpperHexDigit (c : Byte) : Bool :=
  (0x30 ≤ c.toNat && c.toNat ≤ 0x39) || (0x41 ≤ c.toNat && c.toNat ≤ 0x46)

/-- Pairs of digits, letters in upper case. -/
def IsUpperHex : List Byte → Prop
  | [] => True
  | [_] => False
  | c :: d :: rest => isUpperHexDigit c ∧ isUpperHexDigit d ∧ IsUpperHex rest

theorem hexValue_of_isUpperHexDigit : ∀ c : Byte, isUpperHexDigit c →
    ∃ n < 16, hexValue c = some n ∧ hexDigit n = c := by
  decide

theorem hex_cons (b : Byte) (bytes : List Byte) :
    hex (b :: bytes) = hexDigit (b.toNat / 16) :: hexDigit (b.toNat % 16) :: hex bytes :=
  rfl

theorem unhex_hex {s : List Byte} (upper : IsUpperHex s) :
    ∃ bytes, unhex s = .ok bytes ∧ hex bytes = s ∧ 2 * bytes.length = s.length := by
  match s with
  | [] => exact ⟨[], rfl, rfl, rfl⟩
  | [_] => exact upper.elim
  | c :: d :: rest =>
    obtain ⟨first, second, others⟩ := upper
    obtain ⟨bytes, returned, same, length⟩ := unhex_hex others
    obtain ⟨high, high_lt, high_value, high_digit⟩ := hexValue_of_isUpperHexDigit c first
    obtain ⟨low, low_lt, low_value, low_digit⟩ := hexValue_of_isUpperHexDigit d second
    have byte : (BitVec.ofNat 8 (16 * high + low)).toNat = 16 * high + low := by
      rw [BitVec.toNat_ofNat]
      omega
    refine ⟨BitVec.ofNat 8 (16 * high + low) :: bytes, ?_, ?_, ?_⟩
    · rw [unhex, high_value, low_value]
      rw [returned]
      rfl
    · have top : (16 * high + low) / 16 = high := by omega
      have bottom : (16 * high + low) % 16 = low := by omega
      rw [hex_cons, byte, top, bottom, high_digit, low_digit, same]
    · simp only [List.length_cons]
      omega

end Xrt.Xclbin
