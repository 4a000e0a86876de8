import Xrt.Lib.CStrings
import Xrt.Xclbin.Cbor

/-!
# JSON documents as CBOR images

`write_cbor` and `read_cbor`: a document is a map of items at the root. Strings at scopes of the type
`hex_byte_string` are written as bytes, and bytes are read as hexadecimal strings.
-/
namespace Xrt.Xclbin

open Lib

/-- The values of a document. -/
inductive Json
  /-- an integer that is not negative -/
  | uint (n : Nat)
  /-- a negative integer -/
  | int (z : Int)
  | string (s : List Byte)
  | array (items : List Json)
  | object (members : List (List Byte × Json))
  /-- null, a boolean or a floating-point number -/
  | other

inductive DType
  | unknown
  | integer
  | textString
  | byteString
  | hexByteString
  | byteFile
  | enumeration
deriving DecidableEq, Repr

abbrev KeyTypeCollection := List (List Byte × DType)

def getExpectedType (scope : List Byte) (keyTypeCollection : KeyTypeCollection) : DType :=
  match keyTypeCollection.find? fun element => element.1 = scope with
  | none => .unknown
  | some element => element.2

/-- The characters `"#"`, `"::"` and `"[]"` of scopes. -/
def hash : List Byte := [0x23]

def colons : List Byte := [0x3a, 0x3a]

def brackets : List Byte := [0x5b, 0x5d]

/-! ### Writing -/

def writeString (types : KeyTypeCollection) (scope s : List Byte) : Except CborError (List Byte) := do
  if getExpectedType scope types = .hexByteString then
    encodeByteString (← unhex (cString s))
  else encodeTextString (cString s)

mutual

def Json.writeCbor (types : KeyTypeCollection) (scope : List Byte) :
    Json → Except CborError (List Byte)
  | .object members => do
    let head ← encodeMajorType .mapOfItems members.length
    let body ← writeMembers types (scope ++ colons) members
    pure (head ++ body)
  | .array items => do
    let head ← encodeMajorType .arrayOfItems items.length
    let body ← writeItems types (scope ++ brackets) items
    pure (head ++ body)
  | .string s => writeString types scope s
  | .uint n => encodePositiveInteger n
  | .int z => encodeNegativeInteger (z % 2 ^ 64).toNat
  | .other => pure []

def writeItems (types : KeyTypeCollection) (scope : List Byte) :
    List Json → Except CborError (List Byte)
  | [] => pure []
  | item :: items => do
    let first ← item.writeCbor types scope
    let rest ← writeItems types scope items
    pure (first ++ rest)

/-- The pairs of a map, with what stands before a key in the scope of its value. -/
def writeMembers (types : KeyTypeCollection) (front : List Byte) :
    List (List Byte × Json) → Except CborError (List Byte)
  | [] => pure []
  | (name, value) :: members => do
    let key ← encodeTextString (cString name)
    let first ← value.writeCbor types (front ++ cString name)
    let rest ← writeMembers types front members
    pure (key ++ first ++ rest)

end

def writeCbor (types : KeyTypeCollection) (members : List (List Byte × Json)) :
    Except CborError (List Byte) := do
  if members.length = 0 then pure []
  else
    let head ← encodeMajorType .mapOfItems members.length
    let body ← writeMembers types hash members
    pure (head ++ body)

/-! ### Reading -/

/-- `SetInt64(-count)` -/
def negated (count : Nat) : Json :=
  let value := (BitVec.ofNat 64 (2 ^ 64 - count)).toInt
  if value < 0 then .int value else .uint value.toNat

/-- A key and its value, where a key that is no string throws. -/
def readMember (read : CborReader Json) (notString : CborError) : CborReader (List Byte × Json) := do
  let key ← read
  match key with
  | .string name =>
    let value ← read
    pure (name, value)
  | _ => Reader.fail notString

/-- The `switch` of `recursive_read_cbor` on the head of an item. -/
def readItem (read : CborReader Json) (majorType : MajorType) (count : Nat) : CborReader Json :=
  match majorType with
  | .positiveInteger => pure (.uint count)
  | .negativeInteger => pure (negated count)
  | .byteString => do
    let bytes ← getString count
    pure (.string (hex bytes))
  | .textString => do
    let text ← getString count
    pure (.string text)
  | .arrayOfItems => do
    let items ← read.times count
    pure (.array items)
  | .mapOfItems => do
    let members ← (readMember read .keyNotString).times count
    pure (.object members)
  | .semanticTag => Reader.fail .semanticTag
  | .primitives => Reader.fail .primitives

def recursiveReadCbor : Nat → CborReader Json
  | 0 => Reader.fail .depth
  | depth + 1 => do
    let (majorType, count) ← getNextTypeAndCount
    readItem (recursiveReadCbor depth) majorType count

/-- `read_cbor`. Every item takes a byte of the stream, so that its length is depth enough. -/
def readCbor : CborReader (List (List Byte × Json)) := fun istr =>
  (do
    let (majorType, count) ← getNextTypeAndCount
    if majorType ≠ .mapOfItems then Reader.fail .notMapOfItems
    else (readMember (recursiveReadCbor istr.length) .rootKeyNotString).times count :
      CborReader (List (List Byte × Json))) istr

end Xrt.Xclbin
