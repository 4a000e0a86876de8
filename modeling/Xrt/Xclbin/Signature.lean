import Xrt.Lib.Bytes

/-!
# Signatures at the end of a file

`addSignature` appends a record with a magic value, which `getSignature` and `removeSignature` look
for from the beginning of the file. The search compares each byte once: a byte that ends a partial
match is not compared with the first byte of the magic value. So a record behind a partial match is
not found, and one at the beginning of the file is not removed.
-/
namespace Xrt.Xclbin.Signature

open Lib

/-- The loop of `findBytesInStream`, from an index into the string and an offset on. -/
def findBytesFrom (searchString : List Byte) : Nat → Nat → List Byte → Option Nat
  | _, _, [] => none
  | matchIndex, foundOffset, aChar :: rest =>
    if searchString[matchIndex]? = some aChar then
      if matchIndex + 1 = searchString.length then
        some (u32 (u32 (foundOffset + 1) + 2 ^ 32 - searchString.length))
      else findBytesFrom searchString (matchIndex + 1) (u32 (foundOffset + 1)) rest
    else findBytesFrom searchString 0 (u32 (foundOffset + 1)) rest

def findBytesInStream (file searchString : List Byte) : Option Nat :=
  findBytesFrom searchString 0 0 file

/-- `getSignatureMagicValue` -/
def magicValue : List Byte :=
  [0x53, 0x49, 0x47, 0x4E, 0x9D, 0xFF, 0x41, 0xC0, 0x8C, 0xCB, 0x82, 0xA7, 0x13, 0x1C, 0xC9, 0xF3]

/-- `SignatureHeader` but for the magic value and the padding. -/
structure Header where
  signedByOffset : Nat
  signedBySize : Nat
  signatureOffset : Nat
  signatureSize : Nat
  totalSignatureSize : Nat
deriving DecidableEq, Repr

/-- `sizeof(SignatureHeader)` -/
def headerSize : Nat := 44

def Header.bytes (h : Header) : List Byte :=
  magicValue ++ List.replicate 8 0 ++ [h.signedByOffset, h.signedBySize, h.signatureOffset,
    h.signatureSize, h.totalSignatureSize].flatMap (encodeLe 4)

/-- The header that `createSignatureBufferImage` fills in. -/
def header (signature signedBy : List Byte) : Header where
  signatureOffset := headerSize
  signatureSize := u32 signature.length
  signedByOffset := u32 (headerSize + u32 signature.length)
  signedBySize := u32 signedBy.length
  totalSignatureSize := u32 (u32 (headerSize + u32 signature.length) + u32 signedBy.length)

def createSignatureBufferImage (signature signedBy : List Byte) : List Byte :=
  (header signature signedBy).bytes ++ signature ++ signedBy

/-- The new file. No value: the file already has a signature. -/
def addSignature (file signature signedBy : List Byte) : Option (List Byte) :=
  match findBytesInStream file magicValue with
  | some _ => none
  | none => some (file ++ createSignatureBufferImage signature signedBy)

/-! ### Looking up -/

def read (file : List Byte) (off count : Nat) : Option (List Byte) :=
  if off + count ≤ file.length then some (slice file off count) else none

def readHeader (file : List Byte) (off : Nat) : Option Header :=
  (read file off headerSize).map fun bytes =>
    { signedByOffset := decodeLe (slice bytes 24 4)
      signedBySize := decodeLe (slice bytes 28 4)
      signatureOffset := decodeLe (slice bytes 32 4)
      signatureSize := decodeLe (slice bytes 36 4)
      totalSignatureSize := decodeLe (slice bytes 40 4) }

def readText (file : List Byte) (signatureOffset off size : Nat) : Option (List Byte) :=
  if size ≠ 0 then read file (u32 (signatureOffset + off)) size else some []

inductive Lookup
  | missing
  /-- a read goes behind the end of the file -/
  | undefined
  | found (signature signedBy : List Byte) (totalSize : Nat)
deriving DecidableEq, Repr

def getSignature (file : List Byte) : Lookup :=
  match findBytesInStream file magicValue with
  | none => .missing
  | some off =>
    match readHeader file off with
    | none => .undefined
    | some h =>
      match readText file off h.signedByOffset h.signedBySize,
        readText file off h.signatureOffset h.signatureSize with
      | some signedBy, some signature => .found signature signedBy h.totalSignatureSize
      | _, _ => .undefined

/-- The loop that copies the file up to the signature. The count is compared after a byte is copied. -/
def copyUntil (signatureOffset : Nat) : Nat → List Byte → List Byte
  | _, [] => []
  | count, aChar :: rest =>
    aChar :: if u32 (count + 1) = signatureOffset then []
      else copyUntil signatureOffset (u32 (count + 1)) rest

/-- The new file. No value: there is no signature. -/
def removeSignature (file : List Byte) : Option (List Byte) :=
  (findBytesInStream file magicValue).map fun off => copyUntil off 0 file

/-- The signature is read back as it was added, and removing it yields the file before. -/
def Restored (file signature signedBy : List Byte) : Prop :=
  ∃ signed, addSignature file signature signedBy = some signed
    ∧ (∃ totalSize, getSignature signed = .found signature signedBy totalSize)
    ∧ removeSignature signed = some file

/-! ### The search -/

/-- The index after some bytes in which the string is not found. -/
def matchIndexAfter (searchString : List Byte) (matchIndex : Nat) (bytes : List Byte) : Nat :=
  bytes.foldl (fun i b => if searchString[i]? = some b then i + 1 else 0) matchIndex

variable {searchString bytes : List Byte} {matchIndex off found : Nat}

/-- What is found ends with the bytes of a match that began before. -/
theorem infix_of_find (result : findBytesFrom searchString matchIndex off bytes = some found) :
    searchString <:+: searchString.take matchIndex ++ bytes := by
  induction bytes generalizing matchIndex off with
  | nil => cases result
  | cons b bytes ih =>
    rw [findBytesFrom] at result
    split at result
    · next same =>
      have longer : searchString.take matchIndex ++ b :: bytes
          = searchString.take (matchIndex + 1) ++ bytes := by
        rw [List.take_add_one, same, List.append_assoc]
        rfl
      rw [longer]
      split at result
      · next last =>
        rw [last, List.take_length]
        exact (List.prefix_append _ _).isInfix
      · exact ih result
    · have later := ih result
      rw [List.take_zero, List.nil_append] at later
      refine later.trans (List.IsSuffix.isInfix ?_)
      rw [← List.singleton_append, ← List.append_assoc]
      exact List.suffix_append _ _

/-- The search goes on behind bytes in which nothing is found. -/
theorem find_append (none : findBytesFrom searchString matchIndex off bytes = none)
    (small : off + bytes.length < 2 ^ 32) (inside : matchIndex < searchString.length) (rest : List Byte) :
    matchIndexAfter searchString matchIndex bytes < searchString.length
      ∧ findBytesFrom searchString matchIndex off (bytes ++ rest)
        = findBytesFrom searchString (matchIndexAfter searchString matchIndex bytes)
          (off + bytes.length) rest := by
  induction bytes generalizing matchIndex off with
  | nil => exact ⟨inside, rfl⟩
  | cons b bytes ih =>
    rw [List.length_cons] at small
    have next : u32 (off + 1) = off + 1 := u32_of_lt (by omega)
    have length : off + (b :: bytes).length = off + 1 + bytes.length := by
      rw [List.length_cons]
      omega
    rw [findBytesFrom, next] at none
    rw [List.cons_append, findBytesFrom, next, matchIndexAfter, List.foldl_cons, length]
    split at none
    · next same =>
      split at none
      · cases none
      · next more =>
        rw [if_pos same, if_neg more, if_pos same]
        exact ih none (by omega) (by omega)
    · next other =>
      rw [if_neg other, if_neg other]
      exact ih none (by omega) (by omega)

/-- A whole string is found. -/
theorem find_whole {front back : List Byte} (parts : searchString = front ++ back) (some' : back ≠ [])
    (small : off + back.length < 2 ^ 32) (start : front.length ≤ off) (rest : List Byte) :
    findBytesFrom searchString front.length off (back ++ rest) = some (off - front.length) := by
  induction back generalizing front off with
  | nil => exact absurd rfl some'
  | cons b back ih =>
    have here : searchString[front.length]? = some b := by
      rw [parts, List.getElem?_append_right le_rfl, Nat.sub_self]
      rfl
    rw [List.length_cons] at small
    have next : u32 (off + 1) = off + 1 := u32_of_lt (by omega)
    rw [List.cons_append, findBytesFrom, if_pos here, next]
    by_cases last : back = []
    · have length : searchString.length = front.length + 1 := by
        rw [parts, last, List.length_append, List.length_singleton]
      rw [if_pos length.symm, length, u32_sub (by omega) (by omega), Nat.add_sub_add_right]
    · have length : front.length + 1 ≠ searchString.length := by
        have := List.length_pos_iff.mpr last
        rw [parts, List.length_append, List.length_cons]
        omega
      rw [if_neg length]
      have later : findBytesFrom searchString (front ++ [b]).length (off + 1) (back ++ rest)
          = some (off + 1 - (front ++ [b]).length) :=
        ih (parts.trans (List.append_cons front b back)) last (by omega)
          (by rw [List.length_append, List.length_singleton]; omega)
      rwa [List.length_append, List.length_singleton, Nat.add_sub_add_right] at later

/-- What is found does not begin before the match that the search is in. -/
theorem find_ge (result : findBytesFrom searchString matchIndex off bytes = some found)
    (small : off + bytes.length < 2 ^ 32) (start : matchIndex ≤ off) : off ≤ found + matchIndex := by
  induction bytes generalizing matchIndex off with
  | nil => cases result
  | cons b bytes ih =>
    rw [List.length_cons] at small
    have next : u32 (off + 1) = off + 1 := u32_of_lt (by omega)
    rw [findBytesFrom, next] at result
    split at result
    · split at result
      · next last =>
        rw [← last, u32_sub (by omega) (by omega)] at result
        cases result
        omega
      · have later := ih result (by omega) (by omega)
        omega
    · have later := ih result (by omega) (by omega)
      omega

/-! ### Copying -/

theorem copyUntil_eq {target count : Nat} (small : count + bytes.length < 2 ^ 32) :
    copyUntil target count bytes = if count < target then bytes.take (target - count) else bytes := by
  induction bytes generalizing count with
  | nil => simp [copyUntil]
  | cons b bytes ih =>
    rw [List.length_cons] at small
    rw [copyUntil, u32_of_lt (by omega), ih (by omega)]
    by_cases last : count + 1 = target
    · subst last
      simp
    · rw [if_neg last]
      by_cases before : count < target
      · obtain ⟨more, rfl⟩ := Nat.exists_eq_add_of_lt before
        rw [if_pos (by omega), if_pos before, show count + more + 1 - count = more + 1 by omega,
          show count + more + 1 - (count + 1) = more by omega, List.take_succ_cons]
      · rw [if_neg (by omega), if_neg before]

/-! ### The record -/

variable {file signature signedBy : List Byte}

theorem magic_once {index : Nat} (some' : index ≠ 0) (inside : index < magicValue.length) :
    magicValue[index]? ≠ some 0x53 := by
  have all : ∀ i < magicValue.length, i ≠ 0 → magicValue[i]? ≠ some 0x53 := by decide
  exact all index inside some'

theorem length_headerBytes (h : Header) : h.bytes.length = headerSize := by
  simp [Header.bytes, magicValue, headerSize]

theorem read_of_hasAt {part : List Byte} (has : HasAt file off part) :
    read file off part.length = some part := by
  rw [read, if_pos has.1, has.2]

theorem readHeader_written {h : Header} (has : HasAt file off h.bytes)
    (words : ∀ v ∈ [h.signedByOffset, h.signedBySize, h.signatureOffset, h.signatureSize,
      h.totalSignatureSize], v < 2 ^ 32) : readHeader file off = some h := by
  have bytes : read file off headerSize = some h.bytes := by
    rw [← length_headerBytes h]
    exact read_of_hasAt has
  have word (i : Nat) {v : Nat} (here : [h.signedByOffset, h.signedBySize, h.signatureOffset,
      h.signatureSize, h.totalSignatureSize][i]? = some v) :
      decodeLe (slice h.bytes (24 + 4 * i) 4) = v := by
    have part := slice_flatMap (length_encodeLe 4) [] here
    rw [List.append_nil] at part
    rw [Header.bytes, slice_append_right (by rfl), part]
    exact decodeLe_encodeLe (words v (List.mem_of_getElem? here))
  rw [readHeader, bytes, Option.map_some, word 0 rfl, word 1 rfl, word 2 rfl, word 3 rfl, word 4 rfl]

theorem readText_of_hasAt {part : List Byte} {begin : Nat} (small : begin + off < 2 ^ 32)
    (has : HasAt file (begin + off) part) : readText file begin off part.length = some part := by
  unfold readText
  split
  · rw [u32_of_lt small, read_of_hasAt has]
  · next none => rw [List.length_eq_zero_iff.mp (not_not.mp none)]

/-- A signature that is found is read as it was written. -/
theorem getSignature_found
    (small : file.length + headerSize + signature.length + signedBy.length < 2 ^ 32)
    (here : findBytesInStream (file ++ createSignatureBufferImage signature signedBy) magicValue
      = some file.length) :
    ∃ totalSize, getSignature (file ++ createSignatureBufferImage signature signedBy)
      = .found signature signedBy totalSize := by
  have size : headerSize = 44 := rfl
  have first : u32 signature.length = signature.length := u32_of_lt (by omega)
  have second : u32 signedBy.length = signedBy.length := u32_of_lt (by omega)
  have offset : u32 (headerSize + signature.length) = headerSize + signature.length :=
    u32_of_lt (by omega)
  have has : HasAt (file ++ createSignatureBufferImage signature signedBy) file.length
      ((header signature signedBy).bytes ++ signature ++ signedBy) := by
    have middle := hasAt_middle file (createSignatureBufferImage signature signedBy) []
    rwa [List.append_nil] at middle
  obtain ⟨has, hasBy⟩ := hasAt_append.mp has
  obtain ⟨hasHeader, hasSignature⟩ := hasAt_append.mp has
  rw [length_headerBytes] at hasSignature
  rw [List.length_append, length_headerBytes] at hasBy
  have read := readHeader_written hasHeader (by
    simp only [header, first, second, offset, List.forall_mem_cons, List.not_mem_nil]
    refine ⟨?_, ?_, ?_, ?_, Nat.mod_lt _ (by decide), nofun⟩ <;> omega)
  refine ⟨(header signature signedBy).totalSignatureSize, ?_⟩
  rw [getSignature, here]
  dsimp only
  rw [read]
  dsimp only [header]
  rw [first, second, offset, readText_of_hasAt (by omega) hasBy,
    readText_of_hasAt (by omega) hasSignature]

/-! ### Adding, reading and removing -/

theorem length_image (signature signedBy : List Byte) :
    (createSignatureBufferImage signature signedBy).length
      = headerSize + signature.length + signedBy.length := by
  rw [createSignatureBufferImage, List.length_append, List.length_append, length_headerBytes]

/-- The search in a signed file goes on at the record, with the match that the file ends with. -/
theorem find_signed (free : ¬ magicValue <:+: file)
    (small : file.length + headerSize + signature.length + signedBy.length < 2 ^ 32) :
    findBytesInStream file magicValue = none
      ∧ matchIndexAfter magicValue 0 file < magicValue.length
      ∧ findBytesInStream (file ++ createSignatureBufferImage signature signedBy) magicValue
        = findBytesFrom magicValue (matchIndexAfter magicValue 0 file) file.length
          (createSignatureBufferImage signature signedBy) := by
  have none : findBytesInStream file magicValue = none := by
    cases result : findBytesInStream file magicValue with
    | none => rfl
    | some off => exact absurd (infix_of_find result) free
  have later := find_append none (by omega) (by decide) (createSignatureBufferImage signature signedBy)
  rw [Nat.zero_add] at later
  exact ⟨none, later⟩

theorem find_signed_zero (small : file.length + headerSize < 2 ^ 32) :
    findBytesFrom magicValue 0 file.length (createSignatureBufferImage signature signedBy)
      = some file.length := by
  have size : headerSize = 44 := rfl
  have whole (rest : List Byte) : findBytesFrom magicValue ([] : List Byte).length file.length
      (magicValue ++ rest) = some (file.length - ([] : List Byte).length) :=
    find_whole (List.nil_append magicValue).symm (by decide)
      (show file.length + 16 < 2 ^ 32 by omega) (Nat.zero_le _) rest
  rw [createSignatureBufferImage, Header.bytes]
  simp only [List.append_assoc]
  exact whole _

/-- Behind a partial match nothing is found at the record. -/
theorem find_signed_inside {matchIndex : Nat} (partly : matchIndex ≠ 0)
    (inside : matchIndex < magicValue.length)
    (small : file.length + headerSize + signature.length + signedBy.length < 2 ^ 32)
    (result : findBytesFrom magicValue matchIndex file.length
      (createSignatureBufferImage signature signedBy) = some found) : file.length < found := by
  have length := length_image signature signedBy
  obtain ⟨rest, image⟩ : ∃ rest, createSignatureBufferImage signature signedBy = 0x53 :: rest :=
    ⟨_, rfl⟩
  rw [image, List.length_cons] at length
  rw [image, findBytesFrom, if_neg (magic_once partly inside), u32_of_lt (by omega)] at result
  have later := find_ge result (by omega) (Nat.zero_le _)
  omega

theorem removeSignature_eq (small : file.length < 2 ^ 32)
    (here : findBytesInStream file magicValue = some off) :
    removeSignature file = some (if 0 < off then file.take off else file) := by
  rw [removeSignature, here, Option.map_some, copyUntil_eq (by omega), Nat.sub_zero]

/-- The signed file has a length of 32 bits, like the offsets in it. -/
def Addressable (file signature signedBy : List Byte) : Prop :=
  file.length + headerSize + signature.length + signedBy.length < 2 ^ 32

end Xrt.Xclbin.Signature
