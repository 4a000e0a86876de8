import Xrt.Fdt.Strings

/-!
# Any strings block

What the parser makes of the concatenation of any NUL-terminated strings. It looks for the end of a
string from its second byte on, except for the first string: an empty string is taken together with
the one behind it. A string that is found in the block before it, such as one that ends an earlier
string, is refused.
-/
namespace Xrt.Fdt

open Lib

/-- Strings with their NULs, one after another. -/
def blockOf (strings : List (List Byte)) : List Byte := strings.flatMap (· ++ [0])

/-- The parser accepts the block, and every string is found at its offset. -/
def BlockRight (strings : List (List Byte)) : Prop :=
  ∃ block, parseDTCStringsBlock (blockOf strings) 0 (blockOf strings).length = .ok block
    ∧ ∀ before name after, strings = before ++ name :: after →
      getString block (blockOf before).length = .ok name

/-- What the parser takes for one string is not in the block yet, and not too long for a string. -/
def New (block name : List Byte) : Prop := find block (name ++ [0]) = none ∧ name.length < 2 ^ 31

/-- The strings behind the first one can be added one by one. -/
def Addable (block : List Byte) : List (List Byte) → Prop
  | [] => True
  -- the NUL of a last empty string is not looked at
  | [[]] => True
  | [] :: next :: rest => New block (0 :: next) ∧ Addable (block ++ (0 :: next ++ [0])) rest
  | (b :: name) :: rest => New block (b :: name) ∧ Addable (block ++ (b :: name ++ [0])) rest

variable {block name img : List Byte} {strings : List (List Byte)} {size fuel : Nat}

theorem blockOf_cons (name : List Byte) (strings : List (List Byte)) :
    blockOf (name :: strings) = name ++ [0] ++ blockOf strings := List.flatMap_cons

/-! ### One string -/

/-- The rounds from the second byte of a string to its NUL. -/
theorem parseStringsLoop_next {b : Byte} {chars : List Byte} (some : block ≠ [])
    (free : NulFree chars) (has : HasAt img (0 + block.length) (b :: chars ++ [0]))
    (inside : block.length + (b :: chars).length < size) (small : size + 1 < 2 ^ 32) :
    (New block (b :: chars) →
      parseStringsLoop img 0 size (chars.length + (fuel + 1)) (scanStart block) block.length block =
        parseStringsLoop img 0 size fuel (scanStart (block ++ (b :: chars ++ [0])))
          (block ++ (b :: chars ++ [0])).length (block ++ (b :: chars ++ [0])))
    ∧ (¬ New block (b :: chars) → ∀ result,
      parseStringsLoop img 0 size (chars.length + (fuel + 1)) (scanStart block) block.length block
        ≠ .ok result) := by
  have bytes := (hasAt_append.mp has).1
  rw [← List.singleton_append, hasAt_append, List.length_singleton, Nat.add_assoc] at bytes
  have start : scanStart block = block.length + 1 := by simp [scanStart, some]
  have grown : (block ++ (b :: chars ++ [0])).length = block.length + (b :: chars).length + 1 := by
    simp only [List.length_append, List.length_singleton, Nat.add_assoc]
  have start' : scanStart (block ++ (b :: chars ++ [0])) = block.length + (b :: chars).length + 2 := by
    rw [scanStart, if_neg (by simp), grown]
  have finish : block.length + 1 + chars.length = block.length + (b :: chars).length := by
    rw [List.length_cons]
    omega
  rw [start, parseStringsLoop_scan free bytes.2 (by omega) (by omega), finish, start', grown]
  cases here : find block (b :: chars ++ [0]) with
  | some found =>
    constructor
    · intro new
      rw [New, here] at new
      cases new.1
    · obtain ⟨message, thrown⟩ := parseStringsLoop_duplicate here has inside (by omega)
      intro _ result
      rw [thrown]
      exact fun same => by cases same
  | none =>
    rw [parseStringsLoop_nul here has inside (by omega), u32_of_lt (by omega)]
    refine ⟨fun new => if_neg (by have := new.2; omega), fun old result => ?_⟩
    rw [if_pos (not_lt.mp fun short => old ⟨here, short⟩)]
    exact fun same => by cases same

theorem parseStringsLoop_end (some : block ≠ []) (ended : img.length ≤ block.length + 1)
    (left : 0 < fuel) :
    parseStringsLoop img 0 img.length fuel (scanStart block) block.length block = .ok block := by
  obtain ⟨left, rfl⟩ := Nat.exists_eq_add_of_le' left
  rw [parseStringsLoop, scanStart, if_neg some, if_neg (by omega)]

/-! ### The rest of a block -/

/-- A run comes to its end exactly when the strings are good, and then with the whole image, except
for the NUL of a last empty string. -/
def Rebuilds (img : List Byte) (good : Prop) (run : Except Halt (List Byte)) : Prop :=
  (good ↔ ∃ result, run = .ok result)
    ∧ ∀ result, run = .ok result → img = result ∨ img = result ++ [0]

/-- The induction follows what the parser takes for one string. -/
theorem Rebuilds.cons {b : Byte} {chars back : List Byte} {good : Prop} (some : block ≠ [])
    (free : NulFree chars) (whole : img = block ++ (b :: chars ++ [0] ++ back))
    (small : img.length + 1 < 2 ^ 32) (enough : (b :: chars ++ [0] ++ back).length < fuel)
    (rest : ∀ fuel, back.length < fuel → Rebuilds img good
      (parseStringsLoop img 0 img.length fuel (scanStart (block ++ (b :: chars ++ [0])))
        (block ++ (b :: chars ++ [0])).length (block ++ (b :: chars ++ [0])))) :
    Rebuilds img (New block (b :: chars) ∧ good)
      (parseStringsLoop img 0 img.length fuel (scanStart block) block.length block) := by
  have has : HasAt img (0 + block.length) (b :: chars ++ [0]) := by
    rw [whole, ← List.append_assoc, Nat.zero_add]
    exact hasAt_middle block (b :: chars ++ [0]) back
  have inside : block.length + (b :: chars).length < img.length := by
    rw [whole]
    simp only [List.length_append, List.length_singleton]
    omega
  simp only [List.length_append, List.length_cons, List.length_nil] at enough
  obtain ⟨left, rfl⟩ : ∃ left, fuel = chars.length + (left + 1) :=
    ⟨fuel - chars.length - 1, by omega⟩
  obtain ⟨goes, stops⟩ := parseStringsLoop_next some free has inside small
  by_cases new : New block (b :: chars)
  · rw [goes new, and_iff_right new]
    exact rest left (by omega)
  · have never := stops new
    exact ⟨⟨fun both => absurd both.1 new, fun ⟨result, same⟩ => absurd same (never result)⟩,
      fun result same => absurd same (never result)⟩

theorem rebuilds_rest (some : block ≠ []) (free : ∀ s ∈ strings, NulFree s)
    (whole : img = block ++ blockOf strings) (small : img.length + 1 < 2 ^ 32)
    (enough : (blockOf strings).length < fuel) :
    Rebuilds img (Addable block strings)
      (parseStringsLoop img 0 img.length fuel (scanStart block) block.length block) := by
  fun_induction Addable block strings generalizing fuel with
  | case1 block =>
    have all : img = block := by rw [whole, blockOf, List.flatMap_nil, List.append_nil]
    rw [parseStringsLoop_end some (by rw [all]; omega) (by omega)]
    exact ⟨iff_of_true trivial ⟨block, rfl⟩, fun result same => Or.inl (Except.ok.inj same ▸ all)⟩
  | case2 block =>
    have all : img = block ++ [0] := whole
    rw [parseStringsLoop_end some (by rw [all]; simp) (by omega)]
    exact ⟨iff_of_true trivial ⟨block, rfl⟩, fun result same => Or.inr (Except.ok.inj same ▸ all)⟩
  | case3 block next rest ih =>
    simp only [List.forall_mem_cons] at free
    have bytes : blockOf ([] :: next :: rest) = 0 :: next ++ [0] ++ blockOf rest := by
      simp [blockOf_cons]
    rw [bytes] at whole enough
    refine Rebuilds.cons some free.2.1 whole small enough fun fuel enough => ?_
    exact ih (by simp) free.2.2 (whole.trans (List.append_assoc _ _ _).symm) enough
  | case4 block b name rest ih =>
    obtain ⟨freeName, freeRest⟩ := List.forall_mem_cons.mp free
    rw [blockOf_cons] at whole enough
    refine Rebuilds.cons some (fun c member => freeName c (List.mem_cons_of_mem b member)) whole
      small enough fun fuel enough => ?_
    exact ih (by simp) freeRest (whole.trans (List.append_assoc _ _ _).symm) enough

/-! ### Whole blocks -/

theorem blockOf_append (before after : List (List Byte)) :
    blockOf (before ++ after) = blockOf before ++ blockOf after := List.flatMap_append

theorem parseDTCStringsBlock_enter (some : strings ≠ []) :
    parseDTCStringsBlock (blockOf strings) 0 (blockOf strings).length =
      parseStringsLoop (blockOf strings) 0 (blockOf strings).length
        ((blockOf strings).length + 1) 0 0 [] := by
  obtain ⟨before, final, rfl⟩ := (List.eq_nil_or_concat' strings).resolve_left some
  have ended : blockOf (before ++ [final]) = blockOf before ++ final ++ [0] := by
    rw [blockOf_append, blockOf_cons, show blockOf [] = [] from rfl, List.append_nil,
      List.append_assoc]
  have positive : (blockOf (before ++ [final])).length = (blockOf before ++ final).length + 1 := by
    rw [ended, List.length_append, List.length_singleton]
  have last : readBytes (blockOf (before ++ [final])) (0 + ((blockOf (before ++ [final])).length - 1)) 1
      = .ok [0] := by
    rw [positive, Nat.zero_add, Nat.add_sub_cancel, ended, ← List.append_nil (_ ++ [0])]
    exact readBytes_of_hasAt (hasAt_middle _ [0] [])
  rw [parseDTCStringsBlock, if_neg (by omega), last, ok_bind, if_neg (not_not.mpr rfl)]

theorem rebuilds_block {first : List Byte} {rest : List (List Byte)}
    (free : ∀ s ∈ first :: rest, NulFree s) (small : (blockOf (first :: rest)).length + 1 < 2 ^ 32) :
    Rebuilds (blockOf (first :: rest)) (first.length < 2 ^ 31 ∧ Addable (first ++ [0]) rest)
      (parseDTCStringsBlock (blockOf (first :: rest)) 0 (blockOf (first :: rest)).length) := by
  obtain ⟨freeFirst, freeRest⟩ := List.forall_mem_cons.mp free
  rw [parseDTCStringsBlock_enter (List.cons_ne_nil first rest)]
  have whole := blockOf_cons first rest
  generalize blockOf (first :: rest) = img at whole small
  have length : img.length = first.length + 1 + (blockOf rest).length := by
    rw [whole, List.length_append, List.length_append, List.length_singleton]
  have has : HasAt img (0 + 0) (first ++ [0]) := by
    rw [whole]
    exact hasAt_middle [] (first ++ [0]) (blockOf rest)
  have missing : find [] (first ++ [0]) = none := by
    cases first <;> rfl
  have free' : NulFree (first.drop (scanStart [] - 0)) := freeFirst
  obtain ⟨rounds, few, run⟩ := parseStringsLoop_string free' (fun some => absurd rfl some) missing
    has (by rw [List.length_nil]; omega) (Nat.lt_of_succ_lt small)
  have start : scanStart (first ++ [0]) < 2 ^ 32 := by
    rw [scanStart, if_neg (by simp), List.length_append, List.length_singleton]
    omega
  have rounds' : img.length + 1 = rounds + (img.length + 1 - rounds) := by omega
  rw [rounds']
  have begin := run (img.length + 1 - rounds)
  rw [List.nil_append, u32_of_lt start] at begin
  rw [show parseStringsLoop img 0 img.length (rounds + (img.length + 1 - rounds)) 0 0 [] = _ from begin]
  by_cases long : 2 ^ 31 ≤ first.length
  · rw [if_pos long]
    refine ⟨⟨fun both => by omega, ?_⟩, ?_⟩
    · rintro ⟨result, same⟩
      cases same
    · intro result same
      cases same
  · rw [if_neg long, and_iff_right (not_le.mp long)]
    exact rebuilds_rest (by simp) freeRest whole small (by omega)

theorem cString_concat_nul (bytes : List Byte) : cString (bytes ++ [0]) = cString bytes := by
  by_cases ended : 0 ∈ bytes
  · exact cString_append_of_mem ended [0]
  · have free : NulFree bytes := fun b member same => ended (same ▸ member)
    rw [cString_append free [], cString_eq_iff.mpr free]

theorem getString_rebuilt {result before back : List Byte} (free : NulFree name)
    (rebuilt : before ++ (name ++ [0] ++ back) = result
      ∨ before ++ (name ++ [0] ++ back) = result ++ [0]) :
    getString result before.length = .ok name := by
  have here : cString ((before ++ (name ++ [0] ++ back)).drop before.length) = name := by
    rw [List.drop_left, List.append_assoc]
    exact cString_append free back
  rcases rebuilt with rfl | short
  · rw [getString, if_neg (by simp), here]
  · have length := congrArg List.length short
    simp only [List.length_append, List.length_singleton] at length
    rw [short, List.drop_append_of_le_length (by omega), cString_concat_nul] at here
    rw [getString, if_neg (by omega), here]

/-- A block is parsed back exactly when it has a string, and every further string, an empty one with
the next one, is not in the block before it. -/
theorem blockRight_iff (free : ∀ s ∈ strings, NulFree s)
    (small : (blockOf strings).length + 1 < 2 ^ 32) :
    BlockRight strings ↔ ∃ first rest, strings = first :: rest
      ∧ first.length < 2 ^ 31 ∧ Addable (first ++ [0]) rest := by
  cases strings with
  | nil =>
    constructor
    · rintro ⟨block, parsed, _⟩
      cases parsed
    · rintro ⟨first, rest, none, _⟩
      cases none
  | cons first rest =>
    obtain ⟨ends, rebuilt⟩ := rebuilds_block free small
    constructor
    · rintro ⟨block, parsed, _⟩
      exact ⟨first, rest, rfl, ends.mpr ⟨block, parsed⟩⟩
    · rintro ⟨_, _, ⟨⟩, good⟩
      obtain ⟨block, parsed⟩ := ends.mp good
      refine ⟨block, parsed, fun before name after split => ?_⟩
      have here := rebuilt block parsed
      rw [split, blockOf_append, blockOf_cons] at here
      exact getString_rebuilt (free name (by rw [split]; simp)) here

/-- Two strings, the second of which does not end the first one: `ab` and `a`. -/
theorem blockRight_two : BlockRight [[97, 98], [97]] := by
  have free : ∀ s ∈ [[97, 98], [97]], NulFree s := by simp [NulFree]
  exact (blockRight_iff free (by decide)).mpr
    ⟨[97, 98], [[97]], rfl, by decide, ⟨by decide, by decide⟩, trivial⟩

/-- A string that ends an earlier one, `ab` and `b`, is refused. -/
theorem blockRight_suffix : ¬ BlockRight [[97, 98], [98]] := by
  rintro ⟨block, parsed, _⟩
  have refused : parseDTCStringsBlock (blockOf [[97, 98], [98]]) 0 5 = throws .stringOffsetMismatch := by
    decide
  cases refused.symm.trans parsed

end Xrt.Fdt
