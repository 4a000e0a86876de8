import Xrt.Lib.CStrings
import Xrt.Lib.Text

/-!
# The data of properties in JSON

The name of a property ends with the format of its data, words of 8 to 128 bits or strings. Words are
written as hexadecimal numbers and read back with `strtoul`, 128 bits as a string of digits. A word of
8 bits is printed as a character, so that only zeros come back, and data of a format that the table
does not have, such as an array of 128-bit words, is printed that way and not read at all.
-/
namespace Xrt.Fdt.Json

open Lib

inductive DataFormat
  | au8 | au16 | au32 | au64 | asz | u16 | u32 | u64 | u128 | sz | unknown
deriving DecidableEq, Repr

namespace DataFormat

/-- The formats of the table that have an extension, in its order. -/
def table : List (DataFormat × Text) :=
  [(au8, ascii "_au8"), (au16, ascii "_au16"), (au32, ascii "_au32"), (au64, ascii "_au64"),
    (asz, ascii "_asz"), (u16, ascii "_u16"), (u32, ascii "_u32"), (u64, ascii "_u64"),
    (u128, ascii "_u128"), (sz, ascii "_sz")]

def isArray : DataFormat → Bool
  | au8 | au16 | au32 | au64 | asz | unknown => true
  | u16 | u32 | u64 | u128 | sz => false

end DataFormat

def getDataFormat (variableName : Text) : DataFormat :=
  match DataFormat.table.find? fun entry => entry.2.isSuffixOf variableName with
  | some entry => entry.1
  | none => .unknown

/-- The format of a property; some names have a format of their own. -/
def formatOf (propertyNameFormat : Text → Option DataFormat) (name : Text) : DataFormat :=
  (propertyNameFormat name).getD (getDataFormat name)

/-- A property in a `ptree`: its own data, and the data of its children. Its place in the tree is left
out: `put` and `add_child` take the name for a path, and one with a dot goes below another entry. -/
structure PTree where
  data : Text
  children : List Text
deriving DecidableEq, Repr

/-! ### Numbers -/

def nibbleChar (d : Nat) : Byte := BitVec.ofNat 8 (if d < 10 then 0x30 + d else 0x57 + d)

/-- A number as `%x` prints it. -/
def hexNumber (n : Nat) : Text :=
  match Nat.digits 16 n with
  | [] => [0x30]
  | digits => digits.reverse.map nibbleChar

variable (bytes : List Byte)

def nibbles : List Nat := bytes.flatMap fun b => [b.toNat / 16, b.toNat % 16]

def binaryBufferToHexString : Text := (nibbles bytes).map nibbleChar

def hexText (digits : Text) : Text := 0x30 :: 0x78 :: digits

def digitValue (c : Byte) : Option Nat :=
  let n := c.toNat
  if 0x30 ≤ n ∧ n ≤ 0x39 then some (n - 0x30)
  else if 0x61 ≤ n ∧ n ≤ 0x7A then some (n - 0x57)
  else if 0x41 ≤ n ∧ n ≤ 0x5A then some (n - 0x37)
  else none

/-- The digits up to the first other character. -/
def number (base : Nat) : Nat → Text → Nat
  | value, [] => value
  | value, c :: rest =>
    match digitValue c with
    | some d => if d < base then number base (base * value + d) rest else value
    | none => value

variable (text : Text)

/-- The magnitude that `strtoul` reads with base 0. A prefix counts if a digit follows it. -/
def magnitude : Nat :=
  if text.head? = some 0x30 then
    match text.tail with
    | x :: d :: rest =>
      if (x = 0x78 ∨ x = 0x58) ∧ (digitValue d).any (· < 16) then number 16 0 (d :: rest)
      else number 8 0 text
    | _ => number 8 0 text
  else number 10 0 text

def isSpace (c : Byte) : Bool := c = 0x20 || (0x09 ≤ c.toNat && c.toNat ≤ 0x0D)

/-- `strtoul` with base 0: the value, and whether it is out of range. -/
def strtoul : Nat × Bool :=
  let text := text.dropWhile isSpace
  let negative := text.head? = some 0x2D
  let text := if negative ∨ text.head? = some 0x2B then text.tail else text
  let n := magnitude text
  if 2 ^ 64 ≤ n then (2 ^ 64 - 1, true)
  else if negative then ((2 ^ 64 - n) % 2 ^ 64, false)
  else (n, false)

def hex2char (c : Byte) : Byte :=
  if 0x30 ≤ c.toNat ∧ c.toNat ≤ 0x39 then c - 0x30
  else if 0x61 ≤ c.toNat ∧ c.toNat ≤ 0x66 then c - 0x61 + 10
  else if 0x41 ≤ c.toNat ∧ c.toNat ≤ 0x46 then c - 0x41 + 10
  else c

/-- The loop of `hexStringToBinaryBuffer`. -/
def hexPairs : Text → List Byte
  | c :: d :: rest => ((hex2char c <<< 4) + hex2char d) :: hexPairs rest
  | _ => []

def hexStringToBinaryBuffer (bufferSize : Nat) : Option (List Byte) :=
  if text.length = 0 ∨ text.length ≠ bufferSize * 2 then none else some (hexPairs text)

/-! ### To JSON -/

/-- The words of an array. -/
def wordsOf (size : Nat) (data : List Byte) : List (List Byte) :=
  (List.range (data.length / size)).map fun i => slice data (size * i) size

/-- The strings that end with a NUL; the first one begins with the given text. -/
def stringsFrom : Text → List Byte → List Text
  | _, [] => []
  | text, b :: rest => if b = 0 then text :: stringsFrom [] rest else stringsFrom (text ++ [b]) rest

variable (data : List Byte)

def au8MarshalToJSON : Option PTree :=
  -- `boost::format` prints a word of 8 bits as a character
  some ⟨[], data.map fun b => hexText [b]⟩

/-- `au16MarshalToJSON`, `au32MarshalToJSON`, `au64MarshalToJSON` -/
def arrayMarshalToJSON (size : Nat) (print : List Byte → Text) (data : List Byte) : Option PTree :=
  if data.length % size ≠ 0 then none
  else some ⟨[], (wordsOf size data).map fun word => hexText (print word)⟩

def u16MarshalToJSON : Option PTree :=
  -- data that is too short is read all the same
  if data.length % 2 ≠ 0 ∨ data.length = 0 then none
  else some ⟨hexText (hexNumber (decodeBe (data.take 2))), []⟩

/-- `u32MarshalToJSON`, `u64MarshalToJSON`, `u128MarshalToJSON` -/
def wordMarshalToJSON (size : Nat) (print : List Byte → Text) (data : List Byte) : Option PTree :=
  if data.length ≠ size then none else some ⟨hexText (print data), []⟩

def aszMarshalToJSON : Option PTree :=
  if data.getLast? ≠ some 0 then none else some ⟨[], stringsFrom [] data⟩

def szMarshalToJSON : Option PTree :=
  if data.getLast? ≠ some 0 then none else some ⟨cString data, []⟩

def marshalToJSON : DataFormat → Option PTree
  | .au8 => au8MarshalToJSON data
  | .au16 => arrayMarshalToJSON 2 (fun word => hexNumber (decodeBe word)) data
  | .au32 => arrayMarshalToJSON 4 (fun word => hexNumber (decodeBe word)) data
  | .au64 => arrayMarshalToJSON 8 binaryBufferToHexString data
  | .u16 => u16MarshalToJSON data
  | .u32 => wordMarshalToJSON 4 (fun word => hexNumber (decodeBe word)) data
  | .u64 => wordMarshalToJSON 8 binaryBufferToHexString data
  | .u128 => wordMarshalToJSON 16 binaryBufferToHexString data
  | .asz => aszMarshalToJSON data
  | .sz => szMarshalToJSON data
  | .unknown => au8MarshalToJSON data

/-! ### From JSON -/

/-- A word of at most 32 bits. -/
def writeWord (size : Nat) (text : Text) : Option (List Byte) :=
  if 256 ^ size ≤ (strtoul text).1 then none else some (encodeBe size (strtoul text).1)

def writeWord64 : Option (List Byte) :=
  if (strtoul text).2 then none else some (encodeBe 8 (strtoul text).1)

def writeWord128 : Option (List Byte) :=
  if text.take 2 ≠ [0x30, 0x78] ∧ text.take 2 ≠ [0x30, 0x58] then none
  else if text.length % 2 ≠ 0 ∨ 34 < text.length then none
  else hexStringToBinaryBuffer (cString (text.drop 2)) 16

/-- The bytes of a word, and an exception for a word that is too large or of an unknown format. -/
def writeDataWord : DataFormat → Option (List Byte)
  | .sz | .asz => some (text ++ [0])
  | .au8 => writeWord 1 text
  | .au16 | .u16 => writeWord 2 text
  | .au32 | .u32 => writeWord 4 text
  | .au64 | .u64 => writeWord64 text
  | .u128 => writeWord128 text
  | .unknown => none

def writeDataWords (format : DataFormat) : List Text → Option (List Byte)
  | [] => some []
  | text :: rest => do
    let word ← writeDataWord text format
    let words ← writeDataWords format rest
    some (word ++ words)

/-- The data; the words fill the buffer that is made for them. -/
def marshalDataFromJSON (tree : PTree) (format : DataFormat) : Option (List Byte) :=
  if 1 < tree.children.length ∧ format.isArray = false then none
  else if format.isArray = false then writeDataWord tree.data format
  else writeDataWords format tree.children

/-! ### What is right -/

/-- The data that a format is for. -/
def Value : DataFormat → Prop
  | .au8 | .unknown => True
  | .au16 => data.length % 2 = 0
  | .au32 => data.length % 4 = 0
  | .au64 => data.length % 8 = 0
  | .asz => ∃ strings : List Text, (∀ s ∈ strings, NulFree s) ∧ data = strings.flatMap (· ++ [0])
  | .u16 => data.length = 2
  | .u32 => data.length = 4
  | .u64 => data.length = 8
  | .u128 => data.length = 16
  | .sz => ∃ s, NulFree s ∧ data = s ++ [0]

def RoundTrips (format : DataFormat) : Prop :=
  ∃ tree, marshalToJSON data format = some tree ∧ marshalDataFromJSON tree format = some data

/-- Words of 8 bits are zero, arrays of strings have one, and nothing is of an unknown format. -/
def Kept : DataFormat → Prop
  | .au8 => ∀ b ∈ data, b = 0
  | .asz => data ≠ []
  | .unknown => data = []
  | _ => True

/-! ### Digits -/

variable {data : List Byte} {digits : List Nat}

/-- The value of hexadecimal digits, the first one the most significant. -/
def digitsValue (value : Nat) (digits : List Nat) : Nat := digits.foldl (fun n d => 16 * n + d) value

theorem digitValue_nibbleChar : ∀ d < 16, digitValue (nibbleChar d) = some d := by decide

theorem number_nibbleChars (small : ∀ d ∈ digits, d < 16) (value : Nat) :
    number 16 value (digits.map nibbleChar) = digitsValue value digits := by
  induction digits generalizing value with
  | nil => rfl
  | cons d digits ih =>
    obtain ⟨first, rest⟩ := List.forall_mem_cons.mp small
    rw [List.map_cons, number, digitValue_nibbleChar d first]
    dsimp only
    rw [if_pos first, ih rest]
    rfl

theorem strtoul_hexText (some' : digits ≠ []) (small : ∀ d ∈ digits, d < 16)
    (fits : digitsValue 0 digits < 2 ^ 64) :
    strtoul (hexText (digits.map nibbleChar)) = (digitsValue 0 digits, false) := by
  obtain ⟨d, digits, rfl⟩ := List.exists_cons_of_ne_nil some'
  have first := small d List.mem_cons_self
  have value : magnitude (hexText ((d :: digits).map nibbleChar)) = digitsValue 0 (d :: digits) := by
    have hex : (digitValue (nibbleChar d)).any (· < 16) := by
      rw [digitValue_nibbleChar d first]
      simpa using first
    have head : (hexText ((d :: digits).map nibbleChar)).head? = some 0x30 := rfl
    rw [← number_nibbleChars small, magnitude, if_pos head]
    exact if_pos (And.intro (Or.inl (Eq.refl (0x78 : Byte))) hex)
  have begin : strtoul (hexText ((d :: digits).map nibbleChar))
      = if 2 ^ 64 ≤ magnitude (hexText ((d :: digits).map nibbleChar)) then (2 ^ 64 - 1, true)
        else (magnitude (hexText ((d :: digits).map nibbleChar)), false) := rfl
  rw [begin, value, if_neg (not_le.mpr fits)]

theorem hexNumber_digits (n : Nat) :
    ∃ digits, hexNumber n = digits.map nibbleChar ∧ digits ≠ [] ∧ (∀ d ∈ digits, d < 16)
      ∧ digitsValue 0 digits = n := by
  unfold hexNumber
  split
  · next none =>
    refine ⟨[0], rfl, by simp, by simp, ?_⟩
    rw [Nat.digits_eq_nil_iff_eq_zero.mp none]
    rfl
  · next some' =>
    refine ⟨(Nat.digits 16 n).reverse, rfl, by simpa using some', ?_, ?_⟩
    · intro d member
      exact Nat.digits_lt_base (by decide) (List.mem_reverse.mp member)
    · rw [digitsValue, List.foldl_reverse]
      have value := Nat.ofDigits_digits 16 n
      rw [Nat.ofDigits_eq_foldr] at value
      simpa [Nat.add_comm] using value

theorem decodeBe_cons (b : Byte) (bytes : List Byte) :
    decodeBe (b :: bytes) = 256 ^ bytes.length * b.toNat + decodeBe bytes := by
  rw [decodeBe, List.reverse_cons, decodeLe_append, List.length_reverse]
  simp only [decodeLe, Nat.mul_zero, Nat.add_zero]
  exact Nat.add_comm _ _

theorem digitsValue_nibbles (value : Nat) :
    digitsValue value (nibbles bytes) = 256 ^ bytes.length * value + decodeBe bytes := by
  induction bytes generalizing value with
  | nil => simp [nibbles, digitsValue, decodeBe, decodeLe]
  | cons b bytes ih =>
    have step : digitsValue value (nibbles (b :: bytes))
        = digitsValue (16 * (16 * value + b.toNat / 16) + b.toNat % 16) (nibbles bytes) := rfl
    have byte : 16 * (16 * value + b.toNat / 16) + b.toNat % 16 = 256 * value + b.toNat := by omega
    rw [step, byte, ih, decodeBe_cons, List.length_cons, Nat.pow_succ]
    ring

theorem nibbles_lt : ∀ d ∈ nibbles bytes, d < 16 := by
  intro d member
  obtain ⟨b, -, inside⟩ := List.mem_flatMap.mp member
  simp only [List.mem_cons, List.not_mem_nil, or_false] at inside
  omega

/-! ### Words -/

theorem encodeBe_decodeBe : encodeBe bytes.length (decodeBe bytes) = bytes := by
  have same := encodeLe_decodeLe bytes.reverse
  rw [List.length_reverse] at same
  rw [encodeBe, decodeBe, same, List.reverse_reverse]

/-- A text that `strtoul` reads as the big-endian number of the bytes. -/
def Reads (bytes : List Byte) : Prop := strtoul text = (decodeBe bytes, false)

theorem decodeBe_lt_word (small : data.length ≤ 8) : decodeBe data < 2 ^ 64 := by
  refine (decodeBe_lt data).trans_le ?_
  calc 256 ^ data.length ≤ 256 ^ 8 := Nat.pow_le_pow_right (by decide) small
    _ = 2 ^ 64 := by decide

theorem reads_hexNumber (small : data.length ≤ 8) : Reads (hexText (hexNumber (decodeBe data))) data := by
  obtain ⟨digits, text, some', nibble, value⟩ := hexNumber_digits (decodeBe data)
  rw [Reads, text, strtoul_hexText some' nibble (by rw [value]; exact decodeBe_lt_word small), value]

theorem reads_hexString (some' : data ≠ []) (small : data.length ≤ 8) :
    Reads (hexText (binaryBufferToHexString data)) data := by
  have value : digitsValue 0 (nibbles data) = decodeBe data := by
    rw [digitsValue_nibbles, Nat.mul_zero, Nat.zero_add]
  have digits : nibbles data ≠ [] := by
    obtain ⟨b, rest, rfl⟩ := List.exists_cons_of_ne_nil some'
    exact List.cons_ne_nil _ _
  rw [Reads, binaryBufferToHexString, strtoul_hexText digits (nibbles_lt data)
    (by rw [value]; exact decodeBe_lt_word small), value]

variable {text : Text} {size : Nat} {format : DataFormat}

theorem writeWord_reads (reads : Reads text data)
    (length : data.length = size) : writeWord size text = some data := by
  subst length
  rw [writeWord, reads, if_neg (not_le.mpr (decodeBe_lt data)), encodeBe_decodeBe]

theorem writeWord64_reads (reads : Reads text data) (length : data.length = 8) :
    writeWord64 text = some data := by
  rw [writeWord64, reads, if_neg Bool.false_ne_true, ← length, encodeBe_decodeBe]

theorem hexPairs_hexString : hexPairs (binaryBufferToHexString bytes) = bytes := by
  have byte : ∀ b : Byte,
      (hex2char (nibbleChar (b.toNat / 16)) <<< 4) + hex2char (nibbleChar (b.toNat % 16)) = b := by
    decide
  induction bytes with
  | nil => rfl
  | cons b bytes ih =>
    have step : hexPairs (binaryBufferToHexString (b :: bytes))
        = ((hex2char (nibbleChar (b.toNat / 16)) <<< 4) + hex2char (nibbleChar (b.toNat % 16)))
          :: hexPairs (binaryBufferToHexString bytes) := rfl
    rw [step, byte, ih]

theorem nulFree_hexString : NulFree (binaryBufferToHexString bytes) := by
  have nonzero : ∀ d < 16, nibbleChar d ≠ 0 := by decide
  intro b member
  obtain ⟨d, inside, rfl⟩ := List.mem_map.mp member
  exact nonzero d (nibbles_lt bytes d inside)

theorem length_hexString : (binaryBufferToHexString bytes).length = 2 * bytes.length := by
  induction bytes with
  | nil => rfl
  | cons b bytes ih =>
    have step : (binaryBufferToHexString (b :: bytes)).length
        = (binaryBufferToHexString bytes).length + 2 := rfl
    rw [step, ih, List.length_cons]
    omega

theorem writeWord128_hexString (length : data.length = 16) :
    writeWord128 (hexText (binaryBufferToHexString data)) = some data := by
  have digits := length_hexString data
  have text : (hexText (binaryBufferToHexString data)).length = 34 := by
    rw [hexText, List.length_cons, List.length_cons]
    omega
  rw [writeWord128, if_neg (fun none => none.1 rfl), text, if_neg (by decide)]
  have rest : cString ((hexText (binaryBufferToHexString data)).drop 2)
      = binaryBufferToHexString data := cString_eq_iff.mpr (nulFree_hexString data)
  rw [rest, hexStringToBinaryBuffer, if_neg (by omega), hexPairs_hexString]

/-! ### Arrays -/

theorem writeDataWords_map {β : Type} {items : List β} {text : β → Text}
    {word : β → List Byte} (each : ∀ x ∈ items, writeDataWord (text x) format = some (word x)) :
    writeDataWords format (items.map text) = some (items.flatMap word) := by
  induction items with
  | nil => rfl
  | cons x items ih =>
    obtain ⟨first, rest⟩ := List.forall_mem_cons.mp each
    rw [List.map_cons, writeDataWords, first, ih rest]
    rfl

theorem flatten_wordsOf (whole : data.length % size = 0) : (wordsOf size data).flatten = data := by
  have upTo (n : Nat) : ((List.range n).map fun i => slice data (size * i) size).flatten
      = data.take (size * n) := by
    induction n with
    | zero => simp
    | succ n ih =>
      rw [List.range_succ, List.map_append, List.flatten_append, ih, Nat.mul_succ, List.take_add]
      simp [slice]
  rw [wordsOf, upTo, Nat.mul_div_cancel' (Nat.dvd_of_mod_eq_zero whole), List.take_length]

theorem length_of_mem_wordsOf {word : List Byte} (member : word ∈ wordsOf size data) :
    word.length = size := by
  obtain ⟨i, inside, rfl⟩ := List.mem_map.mp member
  have last := List.mem_range.mp inside
  apply length_slice
  calc size * i + size = size * (i + 1) := (Nat.mul_succ size i).symm
    _ ≤ size * (data.length / size) := Nat.mul_le_mul_left size last
    _ ≤ data.length := Nat.mul_div_le data.length size

theorem marshalDataFromJSON_array (array : format.isArray = true) (tree : PTree) :
    marshalDataFromJSON tree format = writeDataWords format tree.children := by
  rw [marshalDataFromJSON, array, if_neg (by simp), if_neg (by simp)]

theorem roundTrips_array {print : List Byte → Text}
    (whole : data.length % size = 0) (array : format.isArray = true)
    (prints : marshalToJSON data format = arrayMarshalToJSON size print data)
    (writes : ∀ word : List Byte, word.length = size →
      writeDataWord (hexText (print word)) format = some word) : RoundTrips data format := by
  refine ⟨_, prints.trans (if_neg (not_not.mpr whole)), ?_⟩
  have each : writeDataWords format ((wordsOf size data).map fun word => hexText (print word))
      = some ((wordsOf size data).flatMap id) :=
    writeDataWords_map fun word member => writes word (length_of_mem_wordsOf member)
  rw [List.flatMap_id, flatten_wordsOf whole] at each
  rw [marshalDataFromJSON_array array]
  exact each

theorem roundTrips_word (single : format.isArray = false)
    (prints : marshalToJSON data format = some ⟨text, []⟩)
    (writes : writeDataWord text format = some data) : RoundTrips data format := by
  refine ⟨_, prints, ?_⟩
  rw [marshalDataFromJSON, if_neg (by simp), if_pos single]
  exact writes

/-- A byte that is printed as a character is read as a digit, or as zero. -/
theorem strtoul_character : ∀ b : Byte, (strtoul (hexText [b])).1 < 256
    ∧ (BitVec.ofNat 8 (strtoul (hexText [b])).1 = b ↔ b = 0) := by
  decide

theorem writeWord_character (b : Byte) :
    writeWord 1 (hexText [b]) = some [BitVec.ofNat 8 (strtoul (hexText [b])).1] := by
  have small : ¬ 256 ^ 1 ≤ (strtoul (hexText [b])).1 := not_le.mpr (strtoul_character b).1
  rw [writeWord, if_neg small]
  rfl

theorem roundTrips_au8 : RoundTrips data .au8 ↔ ∀ b ∈ data, b = 0 := by
  have back : marshalDataFromJSON ⟨[], data.map fun b => hexText [b]⟩ .au8
      = some (data.flatMap fun b => [BitVec.ofNat 8 (strtoul (hexText [b])).1]) := by
    rw [marshalDataFromJSON_array rfl]
    exact writeDataWords_map fun b _ => writeWord_character b
  have same : RoundTrips data .au8
      ↔ data.flatMap (fun b => [BitVec.ofNat 8 (strtoul (hexText [b])).1]) = data := by
    constructor
    · rintro ⟨_, ⟨⟩, returned⟩
      exact Option.some.inj (back.symm.trans returned)
    · exact fun same => ⟨_, rfl, back.trans (congrArg some same)⟩
  rw [same, ← List.map_eq_flatMap]
  conv_lhs => rhs; rw [← List.map_id data]
  rw [List.map_inj_left]
  exact forall₂_congr fun b _ => (strtoul_character b).2

/-! ### Strings -/

theorem stringsFrom_append {s : Text} (free : NulFree s) (text : Text) (rest : List Byte) :
    stringsFrom text (s ++ 0 :: rest) = (text ++ s) :: stringsFrom [] rest := by
  induction s generalizing text with
  | nil =>
    rw [List.nil_append, stringsFrom, if_pos rfl, List.append_nil]
  | cons b s ih =>
    obtain ⟨first, others⟩ := List.forall_mem_cons.mp free
    rw [List.cons_append, stringsFrom, if_neg first, ih others, List.append_assoc]
    rfl

theorem stringsFrom_block {strings : List Text} (free : ∀ s ∈ strings, NulFree s) :
    stringsFrom [] (strings.flatMap (· ++ [0])) = strings := by
  induction strings with
  | nil => rfl
  | cons s strings ih =>
    obtain ⟨first, others⟩ := List.forall_mem_cons.mp free
    rw [List.flatMap_cons, List.append_assoc, List.singleton_append, stringsFrom_append first,
      ih others, List.nil_append]

theorem roundTrips_asz {strings : List Text} (free : ∀ s ∈ strings, NulFree s) :
    RoundTrips (strings.flatMap (· ++ [0])) .asz ↔ strings.flatMap (· ++ [0]) ≠ [] := by
  rcases List.eq_nil_or_concat' strings with rfl | ⟨before, last, rfl⟩
  · refine iff_of_false ?_ (by simp)
    rintro ⟨tree, printed, -⟩
    cases printed
  · refine iff_of_true ?_ (by simp)
    refine ⟨⟨[], before ++ [last]⟩, ?_, ?_⟩
    · have ended : ((before ++ [last]).flatMap (· ++ [0])).getLast? = some 0 := by simp
      rw [marshalToJSON, aszMarshalToJSON, if_neg (not_not.mpr ended), stringsFrom_block free]
    · have each : writeDataWords .asz ((before ++ [last]).map id)
          = some ((before ++ [last]).flatMap (· ++ [0])) := writeDataWords_map fun _ _ => rfl
      rw [List.map_id] at each
      rw [marshalDataFromJSON_array rfl, each]

theorem roundTrips_unknown : RoundTrips data .unknown ↔ data = [] := by
  cases data with
  | nil => exact iff_of_true ⟨_, rfl, rfl⟩ rfl
  | cons b data =>
    refine iff_of_false ?_ (List.cons_ne_nil b data)
    rintro ⟨_, ⟨⟩, returned⟩
    rw [marshalDataFromJSON_array rfl] at returned
    cases returned

/-- Data comes back from JSON exactly if its words of 8 bits are zero, it has a string if it is an array
of those, and the format is known. -/
theorem roundTrips_iff (propertyNameFormat : Text → Option DataFormat) (name : Text)
    (value : Value data (formatOf propertyNameFormat name)) :
    RoundTrips data (formatOf propertyNameFormat name) ↔ Kept data (formatOf propertyNameFormat name) := by
  generalize formatOf propertyNameFormat name = format at value
  cases format with
  | au8 => exact roundTrips_au8
  | unknown => exact roundTrips_unknown
  | asz =>
    obtain ⟨strings, free, rfl⟩ := value
    exact roundTrips_asz free
  | sz =>
    obtain ⟨s, free, rfl⟩ := value
    have text : szMarshalToJSON (s ++ [0]) = some ⟨s, []⟩ := by
      rw [szMarshalToJSON, if_neg (by simp), cString_append free []]
    exact iff_of_true (roundTrips_word rfl text rfl) trivial
  | au16 =>
    refine iff_of_true (roundTrips_array value rfl rfl fun word length => ?_) trivial
    exact writeWord_reads (reads_hexNumber (by omega)) length
  | au32 =>
    refine iff_of_true (roundTrips_array value rfl rfl fun word length => ?_) trivial
    exact writeWord_reads (reads_hexNumber (by omega)) length
  | au64 =>
    refine iff_of_true (roundTrips_array value rfl rfl fun word length => ?_) trivial
    exact writeWord64_reads (reads_hexString (List.ne_nil_of_length_pos (by omega)) (by omega)) length
  | u16 =>
    have length : data.length = 2 := value
    have text : u16MarshalToJSON data = some ⟨hexText (hexNumber (decodeBe data)), []⟩ := by
      rw [u16MarshalToJSON, if_neg (by omega), List.take_of_length_le (by omega)]
    refine iff_of_true (roundTrips_word rfl text ?_) trivial
    exact writeWord_reads (reads_hexNumber (by omega)) length
  | u32 =>
    have length : data.length = 4 := value
    refine iff_of_true (roundTrips_word rfl (if_neg (not_not.mpr length)) ?_) trivial
    exact writeWord_reads (reads_hexNumber (by omega)) length
  | u64 =>
    have length : data.length = 8 := value
    refine iff_of_true (roundTrips_word rfl (if_neg (not_not.mpr length)) ?_) trivial
    exact writeWord64_reads (reads_hexString (List.ne_nil_of_length_pos (by omega)) (by omega)) length
  | u128 =>
    refine iff_of_true (roundTrips_word rfl (if_neg (not_not.mpr value)) ?_) trivial
    exact writeWord128_hexString value

theorem roundTrips_serial : RoundTrips [0x12, 0x34] (formatOf (fun _ => none) (ascii "serial_u16")) := by
  have format : formatOf (fun _ => none) (ascii "serial_u16") = .u16 := by decide
  have value : Value [0x12, 0x34] (formatOf (fun _ => none) (ascii "serial_u16")) := by
    rw [format]
    rfl
  refine (roundTrips_iff (fun _ => none) (ascii "serial_u16") value).mpr ?_
  rw [format]
  trivial

/-- The byte 0x31 is printed as the digit one, and an array of 128-bit words is not read back. -/
theorem roundTrips_fails :
    (formatOf (fun _ => none) (ascii "mac_au8") = .au8
        ∧ marshalToJSON [0x31] .au8 = some ⟨[], [ascii "0x1"]⟩
        ∧ marshalDataFromJSON ⟨[], [ascii "0x1"]⟩ .au8 = some [1] ∧ ¬ RoundTrips [0x31] .au8)
      ∧ formatOf (fun _ => none) (ascii "key_au128") = .unknown
      ∧ ¬ RoundTrips (List.replicate 16 0) .unknown := by
  have back : marshalDataFromJSON ⟨[], [ascii "0x1"]⟩ .au8 = some [1] := by decide
  have none : marshalDataFromJSON ⟨[], (List.replicate 16 0).map fun b => hexText [b]⟩ .unknown = none := by
    decide
  refine ⟨⟨by decide, by decide, back, ?_⟩, by decide, ?_⟩
  · rintro ⟨tree, printed, returned⟩
    cases printed
    cases back.symm.trans returned
  · rintro ⟨tree, printed, returned⟩
    cases printed
    cases none.symm.trans returned

end Xrt.Fdt.Json
