import Xrt.Lib.Run
import Xrt.Xclbin.CborDocument

/-!
# Documents survive the way to a CBOR image and back

By induction over the values of a document: what is written for a value is read back as this value
and as nothing more, as long as the depth is at least the number of its bytes.
-/
namespace Xrt.Xclbin

open Lib

variable {types : KeyTypeCollection} {scope front : List Byte}

mutual

/-- Built from objects, arrays, strings without NUL and unsigned integers of 64 bits, where strings
that are written as bytes are upper-case hexadecimal. -/
def Json.Plain (types : KeyTypeCollection) (scope : List Byte) : Json → Prop
  | .uint n => n < 2 ^ 64
  | .int _ => False
  | .string s => NulFree s ∧ s.length < 2 ^ 64
    ∧ (getExpectedType scope types = .hexByteString → IsUpperHex s)
  | .array items => items.length < 2 ^ 64 ∧ PlainItems types (scope ++ brackets) items
  | .object members => members.length < 2 ^ 64 ∧ PlainMembers types (scope ++ colons) members
  | .other => False

def PlainItems (types : KeyTypeCollection) (scope : List Byte) : List Json → Prop
  | [] => True
  | item :: items => item.Plain types scope ∧ PlainItems types scope items

def PlainMembers (types : KeyTypeCollection) (front : List Byte) :
    List (List Byte × Json) → Prop
  | [] => True
  | (name, value) :: members => NulFree name ∧ name.length < 2 ^ 64
    ∧ value.Plain types (front ++ name) ∧ PlainMembers types front members

end

/-! ### Single items -/

theorem headBytes_length_pos (t : MajorType) (count : Nat) : 0 < (headBytes t count).length := by
  unfold headBytes
  split <;> simp

def ReadsBack (bytes : List Byte) (v : Json) : Prop :=
  0 < bytes.length ∧ ∀ depth, bytes.length ≤ depth → Reads (recursiveReadCbor depth) bytes v

theorem readsBack_item {t : MajorType} {count : Nat} {body : List Byte} {v : Json}
    (bounded : count < 2 ^ 64)
    (reads : ∀ depth, body.length ≤ depth → Reads (readItem (recursiveReadCbor depth) t count) body v) :
    ReadsBack (headBytes t count ++ body) v := by
  have positive := headBytes_length_pos t count
  refine ⟨by rw [List.length_append]; omega, fun depth enough => ?_⟩
  rw [List.length_append] at enough
  -- the head takes a byte, so one level less is enough for the body
  obtain ⟨less, rfl⟩ : ∃ less, depth = less + 1 := Nat.exists_eq_add_one.mpr (by omega)
  exact (reads_head t bounded).bind (reads less (by omega))

theorem readsBack_text {s : List Byte} (bounded : s.length < 2 ^ 64) :
    ReadsBack (headBytes .textString s.length ++ s) (.string s) :=
  readsBack_item bounded fun _ _ => (reads_getString s).map Json.string

theorem readsBack_uint {n : Nat} (bounded : n < 2 ^ 64) :
    ReadsBack (headBytes .positiveInteger n) (.uint n) := by
  have item : ReadsBack (headBytes .positiveInteger n ++ []) (.uint n) :=
    readsBack_item bounded fun _ _ => reads_pure (Json.uint n)
  rwa [List.append_nil] at item

theorem writeString_readsBack {s : List Byte} (plain : (Json.string s).Plain types scope) :
    ∃ bytes, writeString types scope s = .ok bytes ∧ ReadsBack bytes (.string s) := by
  obtain ⟨free, bounded, upper⟩ := plain
  unfold writeString
  rw [cString_eq_iff.mpr free]
  split
  · rename_i expected
    -- only upper-case digits come back, since that is how bytes are printed
    obtain ⟨bytes, returned, same, length⟩ := unhex_hex (upper expected)
    refine ⟨headBytes .byteString bytes.length ++ bytes, ?_, ?_⟩
    · rw [returned]
      rfl
    · have back : ∀ depth, bytes.length ≤ depth → Reads (readItem (recursiveReadCbor depth)
          .byteString bytes.length) bytes (.string (hex bytes)) :=
        fun _ _ => (reads_getString bytes).map fun bytes => Json.string (hex bytes)
      rw [same] at back
      exact readsBack_item (by omega) back
  · exact ⟨_, rfl, readsBack_text bounded⟩

theorem reads_member {name first : List Byte} {value : Json} {depth : Nat} (notString : CborError)
    (bounded : name.length < 2 ^ 64) (back : ReadsBack first value)
    (enough : (headBytes .textString name.length ++ name ++ first).length ≤ depth) :
    Reads (readMember (recursiveReadCbor depth) notString)
      (headBytes .textString name.length ++ name ++ first) (name, value) := by
  rw [List.length_append] at enough
  have key := (readsBack_text bounded).2 depth (by omega)
  exact key.bind ((back.2 depth (by omega)).map (name, ·))

/-! ### Whole values -/

mutual

theorem Json.writeCbor_readsBack (scope : List Byte) (v : Json) (plain : v.Plain types scope) :
    ∃ bytes, v.writeCbor types scope = .ok bytes ∧ ReadsBack bytes v := by
  match v with
  | .uint n =>
    exact ⟨headBytes .positiveInteger n, by rw [Json.writeCbor]; rfl, readsBack_uint plain⟩
  | .string s =>
    rw [Json.writeCbor]
    exact writeString_readsBack plain
  | .array items =>
    obtain ⟨bounded, plain⟩ := plain
    obtain ⟨body, written, back⟩ := writeItems_readsBack (scope ++ brackets) items plain
    refine ⟨headBytes .arrayOfItems items.length ++ body, ?_, ?_⟩
    · rw [Json.writeCbor, written]
      rfl
    · exact readsBack_item bounded fun depth enough => (back depth enough).map Json.array
  | .object members =>
    obtain ⟨bounded, plain⟩ := plain
    obtain ⟨body, written, back⟩ := writeMembers_readsBack (scope ++ colons) members plain
    refine ⟨headBytes .mapOfItems members.length ++ body, ?_, ?_⟩
    · rw [Json.writeCbor, written]
      rfl
    · exact readsBack_item bounded fun depth enough =>
        (back .keyNotString depth enough).map Json.object
  | .int _ => exact plain.elim
  | .other => exact plain.elim

theorem writeItems_readsBack (scope : List Byte) (items : List Json)
    (plain : PlainItems types scope items) :
    ∃ bytes, writeItems types scope items = .ok bytes ∧ ∀ depth, bytes.length ≤ depth →
      Reads ((recursiveReadCbor depth).times items.length) bytes items := by
  match items with
  | [] => exact ⟨[], by rw [writeItems]; rfl, fun _ _ => reads_pure []⟩
  | item :: items =>
    obtain ⟨head, tail⟩ := plain
    obtain ⟨first, written, back⟩ := Json.writeCbor_readsBack scope item head
    obtain ⟨rest, others, reads⟩ := writeItems_readsBack scope items tail
    refine ⟨first ++ rest, ?_, fun depth enough => ?_⟩
    · rw [writeItems, written, others]
      rfl
    · rw [List.length_append] at enough
      exact (back.2 depth (by omega)).times_cons (reads depth (by omega))

theorem writeMembers_readsBack (front : List Byte) (members : List (List Byte × Json))
    (plain : PlainMembers types front members) :
    ∃ bytes, writeMembers types front members = .ok bytes ∧
      ∀ notString depth, bytes.length ≤ depth →
        Reads ((readMember (recursiveReadCbor depth) notString).times members.length) bytes members := by
  match members with
  | [] => exact ⟨[], by rw [writeMembers]; rfl, fun _ _ _ => reads_pure []⟩
  | (name, value) :: members =>
    obtain ⟨free, bounded, head, tail⟩ := plain
    obtain ⟨first, written, back⟩ := Json.writeCbor_readsBack (front ++ name) value head
    obtain ⟨rest, others, reads⟩ := writeMembers_readsBack front members tail
    refine ⟨headBytes .textString name.length ++ name ++ first ++ rest, ?_, ?_⟩
    · rw [writeMembers, cString_eq_iff.mpr free, written, others]
      rfl
    · intro notString depth enough
      rw [List.length_append] at enough
      exact (reads_member notString bounded back (by omega)).times_cons
        (reads notString depth (by omega))

end

/-- For every document of objects, arrays, strings without NUL and unsigned integers, with a root
that is not empty, `read_cbor` takes exactly the bytes that `write_cbor` has produced and returns the
document. -/
theorem readCbor_writeCbor (types : KeyTypeCollection) (members : List (List Byte × Json))
    (root : members ≠ []) (bounded : members.length < 2 ^ 64)
    (plain : PlainMembers types hash members) :
    ∃ bytes, writeCbor types members = .ok bytes ∧ Reads readCbor bytes members := by
  obtain ⟨body, written, reads⟩ := writeMembers_readsBack hash members plain
  refine ⟨headBytes .mapOfItems members.length ++ body, ?_, fun rest => ?_⟩
  · have some : members.length ≠ 0 := fun none => root (List.length_eq_zero_iff.mp none)
    unfold writeCbor
    rw [if_neg some, written]
    rfl
  · -- the depth is the length of the whole stream, which has the body in it
    have deep : body.length
        ≤ (headBytes .mapOfItems members.length ++ body ++ rest).length := by
      simp only [List.length_append]
      omega
    have items := reads .rootKeyNotString _ deep
    exact (reads_head .mapOfItems bounded).bind items rest

/-- A member with a nested object, an array of strings and numbers, and a member of bytes. -/
def sampleTypes : KeyTypeCollection := [([0x23, 0x62], .hexByteString)]

def sampleMembers : List (List Byte × Json) :=
  [([0x61], .object [([0x78], .array [.uint 1000000, .string [], .string [0x41]])]),
    ([0x62], .string [0x30, 0x41])]

theorem readCbor_writeCbor_sample :
    ∃ bytes, writeCbor sampleTypes sampleMembers = .ok bytes ∧ Reads readCbor bytes sampleMembers := by
  apply readCbor_writeCbor sampleTypes sampleMembers
  · simp [sampleMembers]
  · decide
  · simp [sampleMembers, PlainMembers, Json.Plain, PlainItems, NulFree, getExpectedType, sampleTypes,
      IsUpperHex, isUpperHexDigit, hash, colons, brackets]

end Xrt.Xclbin
