import Xrt.Fdt.Json
import Xrt.Xclbin.CborRoundTrip

/-!
# Negative integers in CBOR images

`transform_to_primatives` turns the strings at scopes of the type `integer` into numbers. A negative
one is written as its value modulo 2⁶⁴, and what is read is negated, so that it comes back without
its sign.
-/
namespace Xrt.Xclbin

open Lib

variable {types : KeyTypeCollection} {scope s : List Byte} {z : Int}

/-- The exceptions of `recursive_transformation`. -/
inductive TransformError
  | multipleNegative (text : List Byte)
  | malformedNegativeInteger (text : List Byte)
  | malformedInteger (text : List Byte)
  /-- `std::invalid_argument` and `std::out_of_range` of `std::stoll` -/
  | stollInvalid
  | stollRange
deriving DecidableEq, Repr

def isDecimal (c : Byte) : Bool := 0x30 ≤ c.toNat && c.toNat ≤ 0x39

def withoutSign (text : List Byte) : List Byte :=
  if text.head? = some 0x2D ∨ text.head? = some 0x2B then text.tail else text

def signed (negative : Bool) (n : Nat) : Int := if negative then -n else n

/-- `std::stoll`, with base 10. -/
def stoll (text : List Byte) : Except TransformError Int :=
  let text := text.dropWhile Fdt.Json.isSpace
  let digits := withoutSign text
  if digits.head?.any isDecimal then
    let value := signed (text.head? = some 0x2D) (Fdt.Json.number 10 0 digits)
    if value < -2 ^ 63 ∨ 2 ^ 63 ≤ value then throw .stollRange else pure value
  else throw .stollInvalid

/-- `std::stoull` with base 0, of a text without blanks and signs. -/
def stoull (text : List Byte) : Option Nat :=
  if text.head?.any isDecimal then
    let (value, range) := Fdt.Json.strtoul text
    if range then none else some value
  else none

/-- `SetInt64`. A value that is not negative is an unsigned one as well. -/
def setInt64 (z : Int) : Json := if z < 0 then .int z else .uint z.toNat

/-- A string at a scope of the type `integer`. -/
def transformInteger (text : List Byte) : Except TransformError Json :=
  let negativeCount := text.count 0x2D
  if negativeCount > 1 then throw (.multipleNegative text)
  else if negativeCount = 1 then
    if text.all (ascii "-0123456789").contains then do pure (setInt64 (← stoll text))
    else throw (.malformedNegativeInteger text)
  else if text.all (ascii "0123456789abcdefABCDEFxX").contains then
    match stoull text with
    | some value => pure (.uint value)
    | none => throw (.malformedInteger text)
  else throw (.malformedInteger text)

mutual

def recursiveTransformation (types : KeyTypeCollection) (scope : List Byte) :
    Json → Except TransformError Json
  | .object members => do pure (.object (← transformMembers types (scope ++ colons) members))
  | .array items => do pure (.array (← transformItems types scope items))
  | .string s =>
    if getExpectedType scope types = .integer then transformInteger (cString s)
    else pure (.string s)
  | .uint n => pure (.uint n)
  | .int z => pure (.int z)
  | .other => pure .other

/-- The elements of an array. Only objects are looked into. -/
def transformItems (types : KeyTypeCollection) (scope : List Byte) :
    List Json → Except TransformError (List Json)
  | [] => pure []
  | .object members :: items => do
    let first ← transformMembers types (scope ++ brackets ++ colons) members
    let rest ← transformItems types scope items
    pure (.object first :: rest)
  | item :: items => do
    let rest ← transformItems types scope items
    pure (item :: rest)

def transformMembers (types : KeyTypeCollection) (front : List Byte) :
    List (List Byte × Json) → Except TransformError (List (List Byte × Json))
  | [] => pure []
  | (name, value) :: members => do
    let first ← recursiveTransformation types (front ++ cString name) value
    let rest ← transformMembers types front members
    pure ((name, first) :: rest)

end

/-! ### What is accepted -/

theorem stoll_range {text : List Byte} (accepted : stoll text = .ok z) : -2 ^ 63 ≤ z := by
  unfold stoll at accepted
  simp only at accepted
  split at accepted
  · split at accepted
    · cases accepted
    · rename_i inside
      cases accepted
      omega
  · cases accepted

theorem setInt64_eq_int {v : Int} (same : setInt64 v = .int z) : v = z ∧ z < 0 := by
  unfold setInt64 at same
  split at same
  · cases same
    exact ⟨rfl, ‹_›⟩
  · cases same

theorem transformInteger_int {text : List Byte} (accepted : transformInteger text = .ok (.int z)) :
    -2 ^ 63 ≤ z ∧ z < 0 := by
  unfold transformInteger at accepted
  simp only at accepted
  split at accepted
  · cases accepted
  · split at accepted
    · split at accepted
      · cases parsed : stoll text with
        | error e =>
          rw [parsed] at accepted
          cases accepted
        | ok v =>
          rw [parsed] at accepted
          obtain ⟨rfl, negative⟩ := setInt64_eq_int (Except.ok.inj accepted)
          exact ⟨stoll_range parsed, negative⟩
      · cases accepted
    -- a text without a sign is never negative
    · split at accepted
      · split at accepted <;> cases accepted
      · cases accepted

/-! ### The way through an image -/

/-- The value modulo 2⁶⁴, negated in 64 bits. -/
theorem negated_encoded (low : -2 ^ 63 ≤ z) (negative : z < 0) :
    negated (z % 2 ^ 64).toNat = if z = -2 ^ 63 then .int z else .uint (-z).toNat := by
  have value : (BitVec.ofNat 64 (2 ^ 64 - (z % 2 ^ 64).toNat)).toInt
      = if z = -2 ^ 63 then z else -z := by
    rw [BitVec.toInt_ofNat']
    split <;> simp only [Int.bmod] <;> omega
  unfold negated
  simp only [value]
  by_cases smallest : z = -2 ^ 63
  · simp only [if_pos smallest, if_pos negative]
  · have positive : ¬ -z < 0 := by omega
    simp only [if_neg smallest, if_neg positive]

theorem readsBack_negated {count : Nat} (bounded : count < 2 ^ 64) :
    ReadsBack (headBytes .negativeInteger count) (negated count) := by
  have item : ReadsBack (headBytes .negativeInteger count ++ []) (negated count) :=
    readsBack_item bounded fun _ _ => reads_pure (negated count)
  rwa [List.append_nil] at item

theorem readsBack_negative (low : -2 ^ 63 ≤ z) (negative : z < 0) :
    ReadsBack (headBytes .negativeInteger (z % 2 ^ 64).toNat)
      (if z = -2 ^ 63 then .int z else .uint (-z).toNat) := by
  have bounded : (z % 2 ^ 64).toNat < 2 ^ 64 := by omega
  rw [← negated_encoded low negative]
  exact readsBack_negated bounded

/-- A negative integer that a string at a scope of the type `integer` is turned into comes back from
its image exactly if it is the smallest one. -/
theorem negative_reads_back_iff (types : KeyTypeCollection) (scope s : List Byte) (z : Int)
    (accepted : recursiveTransformation types scope (.string s) = .ok (.int z)) :
    ∃ bytes, (Json.int z).writeCbor types scope = .ok bytes ∧ ∀ depth, bytes.length ≤ depth →
      (Reads (recursiveReadCbor depth) bytes (.int z) ↔ z = -2 ^ 63) := by
  obtain ⟨low, negative⟩ : -2 ^ 63 ≤ z ∧ z < 0 := by
    rw [recursiveTransformation] at accepted
    split at accepted
    · exact transformInteger_int accepted
    · cases accepted
  refine ⟨headBytes .negativeInteger (z % 2 ^ 64).toNat, by rw [Json.writeCbor]; rfl, ?_⟩
  intro depth enough
  have back := (readsBack_negative low negative).2 depth enough
  constructor
  · intro same
    by_contra other
    rw [if_neg other] at back
    -- the sign is lost
    have both := (back []).symm.trans (same [])
    simp at both
  · intro smallest
    rwa [if_pos smallest] at back

def integerTypes : KeyTypeCollection := [(ascii "#offset", .integer)]

theorem smallest_reads_back :
    recursiveTransformation integerTypes (ascii "#offset") (.string (ascii "-9223372036854775808"))
        = .ok (.int (-2 ^ 63))
      ∧ ∃ bytes, (Json.int (-2 ^ 63)).writeCbor integerTypes (ascii "#offset") = .ok bytes
        ∧ ∀ depth, bytes.length ≤ depth →
          (Reads (recursiveReadCbor depth) bytes (.int (-2 ^ 63)) ↔ (-2 ^ 63 : Int) = -2 ^ 63) := by
  have accepted : recursiveTransformation integerTypes (ascii "#offset")
      (.string (ascii "-9223372036854775808")) = .ok (.int (-2 ^ 63)) := by
    rw [recursiveTransformation]
    rfl
  exact ⟨accepted, negative_reads_back_iff _ _ _ _ accepted⟩

/-- The string `-1` is accepted and comes back as 1. -/
theorem minus_one_reads_back_positive :
    recursiveTransformation integerTypes (ascii "#offset") (.string (ascii "-1")) = .ok (.int (-1))
      ∧ (Json.int (-1)).writeCbor integerTypes (ascii "#offset")
          = .ok [0x3b, 0xff, 0xff, 0xff, 0xff, 0xff, 0xff, 0xff, 0xff]
      ∧ Reads (recursiveReadCbor 9) [0x3b, 0xff, 0xff, 0xff, 0xff, 0xff, 0xff, 0xff, 0xff]
          (.uint 1) := by
  refine ⟨?_, ?_, ?_⟩
  · rw [recursiveTransformation]
    rfl
  · rw [Json.writeCbor]
    rfl
  · have low : (-2 ^ 63 : Int) ≤ -1 := by decide
    exact (readsBack_negative low (by decide)).2 9 (Nat.le_refl 9)

end Xrt.Xclbin
