import Xrt.Fdt.Image

/-!
# The strings block

A block holds strings, each with its NUL. The parser looks for the next NUL, adds the string in front
of it to a block of its own, and compares the offset there with that of the string.
-/
namespace Xrt.Fdt

open Lib

variable {block name bytes img : List Byte} {index : Nat}

/-! ### Strings in a block -/

theorem find_some (found : find block name = some index) :
    index ≤ block.length ∧ name <+: block.drop index := by
  have member := List.mem_of_find?_eq_some found
  have holds := List.find?_some found
  exact ⟨Nat.lt_succ_iff.mp (List.mem_range.mp member), List.isPrefixOf_iff_prefix.mp holds⟩

theorem addString_of_some (found : find block (name ++ [0]) = some index) :
    addString block name = (block, u32 index) := by
  rw [addString, found]

theorem addString_of_none (missing : find block (name ++ [0]) = none) :
    addString block name = (block ++ (name ++ [0]), u32 block.length) := by
  rw [addString, missing]

/-! ### Parsing a block -/

theorem readBytes_of_hasAt {pos : Nat} {part : List Byte} (has : HasAt img pos part) :
    readBytes img pos part.length = .ok part := by
  rw [readBytes, if_pos has.1, has.2]

section Loop

variable {pBuffer size lastIndex fuel : Nat}

theorem parseStringsLoop_scan {chars : List Byte} (free : NulFree chars)
    (has : HasAt img (pBuffer + index) chars) (inside : index + chars.length < size)
    (small : size < 2 ^ 32) :
    parseStringsLoop img pBuffer size (chars.length + fuel) index lastIndex block =
      parseStringsLoop img pBuffer size fuel (index + chars.length) lastIndex block := by
  induction chars generalizing index with
  | nil => simp
  | cons b chars ih =>
    rw [← List.singleton_append, hasAt_append] at has
    rw [List.length_cons] at inside
    have other : [b] ≠ [0] := by simpa using free b List.mem_cons_self
    have next : u32 (index + 1) = index + 1 := u32_of_lt (by omega)
    have hasRest : HasAt img (pBuffer + (index + 1)) chars := by
      simpa [Nat.add_assoc] using has.2
    have later := ih (fun c member => free c (List.mem_cons_of_mem b member)) hasRest (by omega)
    have byte : readBytes img (pBuffer + index) 1 = .ok [b] := readBytes_of_hasAt has.1
    rw [List.length_cons, Nat.add_right_comm, parseStringsLoop, if_pos (by omega), byte,
      ok_bind, if_neg other, next, later, Nat.add_assoc index, Nat.add_comm 1]

/-- Where the search for the end of the next string begins. -/
def scanStart (block : List Byte) : Nat := if block = [] then 0 else block.length + 1

/-- The round at the NUL of a string that begins behind the block. -/
theorem parseStringsLoop_round (has : HasAt img (pBuffer + block.length) (name ++ [0]))
    (inside : block.length + name.length < size) (small : size < 2 ^ 32) :
    parseStringsLoop img pBuffer size (fuel + 1) (block.length + name.length) block.length block =
      if 2 ^ 31 ≤ name.length then throws .lengthError
      else if (addString block name).2 ≠ block.length then throws .stringOffsetMismatch
      else parseStringsLoop img pBuffer size fuel (u32 (block.length + name.length + 2))
        (block.length + name.length + 1) (addString block name).1 := by
  rw [hasAt_append, Nat.add_assoc] at has
  have byte : readBytes img (pBuffer + (block.length + name.length)) 1 = .ok [0] :=
    readBytes_of_hasAt has.2
  have len : u32 (block.length + name.length + 2 ^ 32 - block.length) = name.length := by
    rw [u32_sub (by omega) (by omega)]
    omega
  have next : u32 (block.length + name.length + 1) = block.length + name.length + 1 :=
    u32_of_lt (by omega)
  rw [parseStringsLoop, if_pos inside, byte, ok_bind, if_pos rfl, len, next, constructString]
  by_cases long : 2 ^ 31 ≤ name.length
  · rw [if_pos long, if_pos long, throws, error_bind]
  · rw [if_neg long, if_neg long, readBytes_of_hasAt has.1, ok_bind]

theorem parseStringsLoop_nul (missing : find block (name ++ [0]) = none)
    (has : HasAt img (pBuffer + block.length) (name ++ [0]))
    (inside : block.length + name.length < size) (small : size < 2 ^ 32) :
    parseStringsLoop img pBuffer size (fuel + 1) (block.length + name.length) block.length block =
      if 2 ^ 31 ≤ name.length then throws .lengthError
      else parseStringsLoop img pBuffer size fuel (u32 (block.length + name.length + 2))
        (block.length + name.length + 1) (block ++ (name ++ [0])) := by
  have offset : u32 block.length = block.length := u32_of_lt (by omega)
  rw [parseStringsLoop_round has inside small, addString_of_none missing, offset,
    if_neg (not_not.mpr rfl)]

/-- The offset of an earlier copy is not the end of the block, and the parser throws. -/
theorem parseStringsLoop_duplicate {found : Nat} (duplicate : find block (name ++ [0]) = some found)
    (has : HasAt img (pBuffer + block.length) (name ++ [0]))
    (inside : block.length + name.length < size) (small : size < 2 ^ 32) :
    ∃ message, parseStringsLoop img pBuffer size (fuel + 1) (block.length + name.length) block.length
      block = throws message := by
  have earlier := (find_some duplicate).2.length_le
  rw [List.length_append, List.length_singleton, List.length_drop] at earlier
  have offset : u32 found = found := u32_of_lt (by omega)
  rw [parseStringsLoop_round has inside small, addString_of_some duplicate, offset,
    if_pos (by omega : found ≠ block.length)]
  split
  · exact ⟨_, rfl⟩
  · exact ⟨_, rfl⟩

theorem parseStringsLoop_string (free : NulFree (name.drop (scanStart block - block.length)))
    (some : block ≠ [] → name ≠ []) (missing : find block (name ++ [0]) = none)
    (has : HasAt img (pBuffer + block.length) (name ++ [0]))
    (inside : block.length + name.length < size) (small : size < 2 ^ 32) :
    ∃ rounds ≤ name.length + 1, ∀ fuel,
      parseStringsLoop img pBuffer size (rounds + fuel) (scanStart block) block.length block =
        if 2 ^ 31 ≤ name.length then throws .lengthError
        else parseStringsLoop img pBuffer size fuel (u32 (scanStart (block ++ (name ++ [0]))))
          (block ++ (name ++ [0])).length (block ++ (name ++ [0])) := by
  have start : scanStart (block ++ (name ++ [0])) = block.length + name.length + 2 := by
    rw [scanStart, if_neg (by simp)]
    simp only [List.length_append, List.length_singleton]
    omega
  have last : (block ++ (name ++ [0])).length = block.length + name.length + 1 := by
    simp only [List.length_append, List.length_singleton]
    omega
  have bytes := (hasAt_append.mp has).1
  rw [start, last]
  by_cases first : block = []
  · have begin : scanStart block = block.length := by simp [scanStart, first]
    rw [begin, Nat.sub_self, List.drop_zero] at free
    refine ⟨name.length + 1, le_rfl, fun fuel => ?_⟩
    rw [begin, Nat.add_assoc, parseStringsLoop_scan free bytes inside small,
      Nat.add_comm 1 fuel, parseStringsLoop_nul missing has inside small]
  · obtain ⟨b, chars, rfl⟩ := List.exists_cons_of_ne_nil (some first)
    have begin : scanStart block = block.length + 1 := by simp [scanStart, first]
    rw [begin, Nat.add_sub_cancel_left, List.drop_succ_cons, List.drop_zero] at free
    rw [← List.singleton_append, hasAt_append, List.length_singleton, Nat.add_assoc] at bytes
    rw [List.length_cons] at inside
    have finish : block.length + 1 + chars.length = block.length + (b :: chars).length := by
      rw [List.length_cons]
      omega
    refine ⟨chars.length + 1, by simp, fun fuel => ?_⟩
    rw [begin, Nat.add_assoc chars.length, parseStringsLoop_scan free bytes.2 (by omega) small,
      Nat.add_comm 1 fuel, finish,
      parseStringsLoop_nul missing has (by rw [List.length_cons]; omega) small]

end Loop

end Xrt.Fdt
