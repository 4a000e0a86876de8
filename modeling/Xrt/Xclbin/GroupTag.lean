import Xrt.Lib.Text

/-!
# The tags of memory groups

`createMemoryBankGroupEntries` of `xclbinutil` joins neighbouring memories of a kernel argument to a group.
The tag of the group lists the indexes of its memories, with `a:b` for those that follow each other, as in
`MBG[0,2:4,6,8:9]`.

The search for the end of a range compares a word of the index vector with the next one, and does not
stop at the last one.
-/
namespace Xrt.Xclbin.GroupTag

open Lib

/-! ### The groups -/

structure WorkingConnection where
  argIndex : Nat
  ipLayoutIndex : Nat
  memIndex : Nat
  baseAddress : BitVec 64
  size : BitVec 64
  canGroup : Bool
deriving DecidableEq, Repr

def sameArgument (a b : WorkingConnection) : Bool :=
  a.ipLayoutIndex == b.ipLayoutIndex && a.argIndex == b.argIndex

/-- The entries from the next one on that continue the memory, and the rest. -/
def peek (start : WorkingConnection) :
    BitVec 64 → List WorkingConnection → List WorkingConnection × List WorkingConnection
  | _, [] => ([], [])
  | groupSize, next :: rest =>
    if start.baseAddress + groupSize ≠ next.baseAddress ∨ ¬ sameArgument start next then ([], next :: rest)
    else
      let peeked := peek start (groupSize + next.size) rest
      (next :: peeked.1, peeked.2)

/-- The first loop, with the entry before the current one. A run is a group if it is longer than one
entry, and if its neighbours belong to other arguments. -/
def markGroups : Nat → Option WorkingConnection → List WorkingConnection → List WorkingConnection
  | 0, _, rest => rest
  | _ + 1, _, [] => []
  | fuel + 1, previous, start :: rest =>
    let peeked := peek start start.size rest
    let last := peeked.1.getLastD start
    let canGroup := !peeked.1.isEmpty && !previous.any (sameArgument · start)
      && !peeked.2.head?.any (sameArgument · last)
    (start :: peeked.1).map (fun entry => { entry with canGroup := canGroup }) ++
      markGroups fuel (some last) peeked.2

/-- The second loop: the memory indexes of each group. -/
def collectGroups : Nat → List WorkingConnection → List (List Nat)
  | 0, _ => []
  | _ + 1, [] => []
  | fuel + 1, start :: rest =>
    let peeked := if start.canGroup then peek start start.size rest else ([], rest)
    if peeked.1.isEmpty then collectGroups fuel peeked.2
    else (start :: peeked.1).map (·.memIndex) :: collectGroups fuel peeked.2

/-- The groups of the connections, in the order in which the sort leaves these. -/
def groups (workingConnections : List WorkingConnection) : List (List Nat) :=
  let marked := markGroups workingConnections.length none workingConnections
  collectGroups marked.length marked

variable {fuel : Nat} {group : List Nat} {items : List (Nat × Nat)}

theorem ne_nil_of_mem_collectGroups {entries : List WorkingConnection}
    (formed : group ∈ collectGroups fuel entries) : group ≠ [] := by
  induction fuel generalizing entries with
  | zero => exact absurd formed List.not_mem_nil
  | succ fuel ih =>
    cases entries with
    | nil => exact absurd formed List.not_mem_nil
    | cons start rest =>
      rw [collectGroups] at formed
      generalize (if start.canGroup = true then peek start start.size rest else ([], rest)) = peeked
        at formed
      split_ifs at formed
      · exact ih formed
      · rcases List.mem_cons.mp formed with rfl | later
        · simp
        · exact ih later

/-! ### The tag -/

def memIndexVector (group : List Nat) : List Nat := group.insertionSort (· ≤ ·)

/-- How many of the words behind a word count on from it. The search ends with a word that does not, or
with a fault when there is none that can be read. -/
def countOn : Nat → List Nat → Option Nat
  | _, [] => none
  | word, next :: rest => if word + 1 = next then (countOn next rest).map (· + 1) else some 0

/-- The loop over the index vector, which is the first `size` words. Next to the tag it returns the
indexes that were read. -/
def tagLoop (words : List Nat) (size : Nat) : Nat → Nat → Text → List Nat → Option (Text × List Nat)
  | 0, _, _, _ => none
  | fuel + 1, idx, newTag, reads =>
    if idx < size then
      match countOn (words.getD idx 0) (words.drop (idx + 1)) with
      | none => none
      | some count =>
        let last := idx + count
        let newTag := newTag ++ decimal (words.getD idx 0)
        let newTag := if idx ≠ last then newTag ++ ascii ":" ++ decimal (words.getD last 0) else newTag
        let newTag := newTag ++ (if last ≠ size - 1 then ascii "," else ascii "]")
        tagLoop words size fuel (last + 1) newTag (reads ++ List.range' idx (count + 2))
    else some (newTag, reads)

/-- The tag of a group, with the words that are in memory behind the index vector. -/
def createTag (group behind : List Nat) : Option (Text × List Nat) :=
  let vector := memIndexVector group
  tagLoop (vector ++ behind) vector.length (vector.length + 1) 0 (ascii "MBG[") []

/-- What is recorded of the tag: `m_tag` has 16 bytes. -/
def recorded (newTag : Text) : Text := newTag.take 15

/-! ### What a tag means -/

def readNumber (text : Text) : Option Nat :=
  if !text.isEmpty && text.all fun b => 0x30 ≤ b.toNat && b.toNat ≤ 0x39 then
    some (Nat.ofDigits 10 (text.reverse.map fun b => b.toNat - 0x30))
  else none

/-- An index, or the first and the last index of a range. -/
def readItem (text : Text) : Option (Nat × Nat) :=
  match (text.splitOn 0x3A).mapM readNumber with
  | some [index] => some (index, index)
  | some [first, last] => some (first, last)
  | _ => none

def readTag (text : Text) : Option (List (Nat × Nat)) :=
  if text.take 4 = ascii "MBG[" ∧ text.getLast? = some 0x5D then
    ((text.drop 4).dropLast.splitOn 0x2C).mapM readItem
  else none

/-- The items have these indexes, and no others. -/
def Covers (items : List (Nat × Nat)) (indexes : List Nat) : Prop :=
  ∀ index, index ∈ indexes ↔ ∃ item ∈ items, item.1 ≤ index ∧ index ≤ item.2

/-- The tag can be read, and has the indexes of the group. -/
def Denotes (text : Text) (group : List Nat) : Prop :=
  ∃ items, readTag text = some items ∧ Covers items group

def itemText (item : Nat × Nat) : Text :=
  [0x3A].intercalate ((if item.1 = item.2 then [item.1] else [item.1, item.2]).map decimal)

def itemsText (items : List (Nat × Nat)) : Text := [0x2C].intercalate (items.map itemText)

theorem digit_of_mem_decimal {n : Nat} {b : Byte} (member : b ∈ decimal n) :
    0x30 ≤ b.toNat ∧ b.toNat ≤ 0x39 := by
  obtain ⟨d, small, rfl⟩ := mem_decimal member
  rw [BitVec.toNat_ofNat]
  omega

theorem decimal_ne_nil (n : Nat) : decimal n ≠ [] := by
  by_cases zero : n = 0
  · rw [zero, decimal_zero]
    exact List.cons_ne_nil _ _
  · intro none
    have digits := digits_of_decimal zero
    rw [none] at digits
    exact zero (Nat.digits_eq_nil_iff_eq_zero.mp digits.symm)

theorem readNumber_decimal (n : Nat) : readNumber (decimal n) = some n := by
  rw [readNumber, if_pos (by simpa [decimal_ne_nil] using fun _ => digit_of_mem_decimal)]
  by_cases zero : n = 0
  · rw [zero, decimal_zero]
    rfl
  · rw [digits_of_decimal zero, Nat.ofDigits_digits]

theorem readItem_itemText (item : Nat × Nat) : readItem (itemText item) = some item := by
  have clean (n : Nat) : (0x3A : Byte) ∉ decimal n := fun member =>
    absurd (digit_of_mem_decimal member).2 (by decide)
  rw [readItem, itemText, mapM_splitOn_intercalate readNumber_decimal clean (by split_ifs <;> simp)]
  split_ifs with same
  · exact congrArg some (Prod.ext rfl same)
  · rfl

/-- The text of an item has digits and colons only. -/
theorem notMem_itemText {b : Byte} (colon : b ≠ 0x3A) (digit : ¬ (0x30 ≤ b.toNat ∧ b.toNat ≤ 0x39))
    (item : Nat × Nat) : b ∉ itemText item := by
  have clean (n : Nat) : b ∉ decimal n := fun member => digit (digit_of_mem_decimal member)
  rw [itemText]
  split_ifs
  · simpa using clean item.1
  · simpa [List.intercalate, clean] using colon

theorem readTag_itemsText (nonempty : items ≠ []) :
    readTag (ascii "MBG[" ++ itemsText items ++ ascii "]") = some items := by
  have take : (ascii "MBG[" ++ itemsText items ++ ascii "]").take 4 = ascii "MBG[" := rfl
  have last : (ascii "MBG[" ++ itemsText items ++ ascii "]").getLast? = some 0x5D :=
    List.getLast?_concat
  have inner : ((ascii "MBG[" ++ itemsText items ++ ascii "]").drop 4).dropLast = itemsText items :=
    List.dropLast_concat
  rw [readTag, if_pos ⟨take, last⟩, inner]
  exact mapM_splitOn_intercalate readItem_itemText (notMem_itemText (by decide) (by decide)) nonempty

/-! ### The search for the end of a range -/

/-- The search ends before the last word of the vector, or goes on behind it. -/
theorem countOn_append (word : Nat) (vector behind : List Nat) :
    (∃ count < vector.length, countOn word (vector ++ behind) = some count ∧
      (word :: vector).take (count + 1) = List.range' word (count + 1)) ∨
    word :: vector = List.range' word (vector.length + 1) ∧
      countOn word (vector ++ behind) =
        (countOn (word + vector.length) behind).map (· + vector.length) := by
  induction vector generalizing word with
  | nil => exact .inr ⟨rfl, by simp⟩
  | cons next vector ih =>
    rw [List.cons_append, countOn]
    by_cases on : word + 1 = next
    · subst on
      rw [if_pos rfl]
      rcases ih (word + 1) with ⟨count, less, counted, range⟩ | ⟨range, counted⟩
      · refine .inl ⟨count + 1, Nat.succ_lt_succ less, by rw [counted]; rfl, ?_⟩
        rw [List.take_succ_cons, range]
        rfl
      · refine .inr ⟨?_, ?_⟩
        · exact congrArg (word :: ·) range
        · rw [counted, Option.map_map, List.length_cons, Nat.add_assoc, Nat.add_comm 1]
          rfl
    · rw [if_neg on]
      exact .inl ⟨0, Nat.succ_pos _, rfl, rfl⟩

theorem getD_of_countOn {word count : Nat} {rest : List Nat} (counted : countOn word rest = some count) :
    (word :: rest).getD count 0 = word + count := by
  induction rest generalizing word count with
  | nil => exact absurd counted (Option.some_ne_none _).symm
  | cons next rest ih =>
    rw [countOn] at counted
    split_ifs at counted with on
    · obtain ⟨less, found, rfl⟩ := Option.map_eq_some_iff.mp counted
      rw [List.getD_cons_succ, ih found]
      omega
    · obtain rfl := Option.some.inj counted
      rfl

theorem itemText_add (word count : Nat) :
    itemText (word, word + count) =
      decimal word ++ if count = 0 then [] else ascii ":" ++ decimal (word + count) := by
  rw [itemText]
  by_cases zero : count = 0
  · simp [zero, List.intercalate]
  · simp [zero, List.intercalate, ascii]

theorem itemsText_cons (item : Nat × Nat) (nonempty : items ≠ []) :
    itemsText (item :: items) = itemText item ++ ascii "," ++ itemsText items := by
  obtain ⟨next, later, rfl⟩ := List.exists_cons_of_ne_nil nonempty
  simp [itemsText, List.intercalate, ascii]

/-- One pass of the loop. -/
theorem tagLoop_succ {words rest reads : List Nat} {size idx word : Nat} {newTag : Text}
    (inside : idx < size) (cut : words.drop idx = word :: rest) :
    tagLoop words size (fuel + 1) idx newTag reads =
      (countOn word rest).bind fun count =>
        tagLoop words size fuel (idx + count + 1)
          (newTag ++ itemText (word, word + count) ++
            if idx + count ≠ size - 1 then ascii "," else ascii "]")
          (reads ++ List.range' idx (count + 2)) := by
  have read (i : Nat) : words.getD (idx + i) 0 = (word :: rest).getD i 0 := by
    rw [← cut, List.getD_eq_getElem?_getD, List.getD_eq_getElem?_getD, List.getElem?_drop]
  have first : words.getD idx 0 = word := read 0
  have after : words.drop (idx + 1) = rest := by
    rw [← List.drop_drop, cut, List.drop_succ_cons, List.drop_zero]
  rw [tagLoop, if_pos inside, first, after]
  cases counted : countOn word rest with
  | none => rfl
  | some count =>
    dsimp only [Option.bind_some]
    rw [read count, getD_of_countOn counted, itemText_add]
    by_cases zero : count = 0
    · simp [zero]
    · simp [zero]

theorem covers_append {front back : List (Nat × Nat)} {indexes indexes' : List Nat}
    (first : Covers front indexes) (second : Covers back indexes') :
    Covers (front ++ back) (indexes ++ indexes') := fun index => by
  simp only [List.mem_append, first index, second index, or_and_right, exists_or]

theorem covers_range (word count : Nat) :
    Covers [(word, word + count)] (List.range' word (count + 1)) := fun index => by
  simp only [List.mem_range'_1, List.mem_singleton, exists_eq_left]
  omega

/-- From an index of the vector on, the loop lists the rest of the vector. How it ends depends on the
search behind the last word. -/
theorem tagLoop_spec {vector behind : List Nat} {idx : Nat} (inside : idx < vector.length)
    (enough : vector.length - idx < fuel) (newTag : Text) (reads : List Nat) :
    ∃ items first early start,
      Covers (items ++ [(first, vector.getLastD 0)]) (vector.drop idx) ∧
      (∀ i ∈ early, i < vector.length) ∧ start < vector.length ∧
      tagLoop (vector ++ behind) vector.length fuel idx newTag reads =
        (countOn (vector.getLastD 0) behind).map fun count =>
          (newTag ++ itemsText (items ++ [(first, vector.getLastD 0 + count)]) ++
            (if count = 0 then ascii "]" else ascii ","),
          reads ++ early ++ List.range' start (vector.length - start + count + 1)) := by
  induction fuel generalizing idx newTag reads with
  | zero => exact absurd enough (Nat.not_lt_zero _)
  | succ fuel ih =>
    obtain ⟨word, rest, cut⟩ := List.exists_cons_of_ne_nil (mt List.drop_eq_nil_iff.mp (by omega) :
      vector.drop idx ≠ [])
    have length : vector.length = idx + rest.length + 1 := by
      have := congrArg List.length cut
      rw [List.length_drop, List.length_cons] at this
      omega
    have cut' : (vector ++ behind).drop idx = word :: (rest ++ behind) := by
      rw [List.drop_append_of_le_length (by omega), cut, List.cons_append]
    rw [cut]
    rcases countOn_append word rest behind with ⟨count, less, counted, range⟩ | ⟨range, counted⟩
    · rw [tagLoop_succ inside cut', counted, Option.bind_some, if_pos (by omega)]
      obtain ⟨items, first, early, start, covers, low, start_lt, ends⟩ :=
        @ih (idx + count + 1) (by omega) (by omega)
          (newTag ++ itemText (word, word + count) ++ ascii ",") (reads ++ List.range' idx (count + 2))
      refine ⟨(word, word + count) :: items, first, List.range' idx (count + 2) ++ early, start, ?_, ?_,
        start_lt, ?_⟩
      · have back : vector.drop (idx + count + 1) = (word :: rest).drop (count + 1) := by
          rw [← cut, List.drop_drop, Nat.add_assoc]
        have both := covers_append (covers_range word count) covers
        rwa [back, ← range, List.take_append_drop] at both
      · intro i member
        rcases List.mem_append.mp member with here | later
        · have := List.mem_range'_1.mp here
          omega
        · exact low i later
      · rw [ends]
        simp [itemsText_cons]
    · have last : vector.getLastD 0 = word + rest.length := by
        have end_of_drop := @List.getLast?_drop Nat idx vector
        rw [cut, range, if_neg (by omega), List.getLast?_range', if_neg (Nat.succ_ne_zero _)] at end_of_drop
        rw [List.getLastD_eq_getLast?, ← end_of_drop]
        rfl
      rw [last]
      refine ⟨[], word, [], idx, ?_, nofun, inside, ?_⟩
      · rw [range]
        exact covers_range word rest.length
      · rw [tagLoop_succ inside cut', counted]
        cases countOn (word + rest.length) behind with
        | none => rfl
        | some count =>
          obtain ⟨fuel, rfl⟩ : ∃ less, fuel = less + 1 := Nat.exists_eq_add_one.mpr (by omega)
          simp only [Option.map_some, Option.bind_some]
          rw [tagLoop, if_neg (by omega)]
          have whole : word + (count + rest.length) = word + rest.length + count := by omega
          have many : count + rest.length + 2 = vector.length - idx + count + 1 := by omega
          have ends : idx + (count + rest.length) = vector.length - 1 ↔ count = 0 := by omega
          rw [whole, many, List.append_nil, List.nil_append, itemsText, List.map_singleton,
            List.intercalate_singleton]
          simp only [ne_eq, ends, ite_not]

/-! ### The tag of a group -/

theorem bracket_notMem_itemsText (items : List (Nat × Nat)) : (0x5D : Byte) ∉ itemsText items := by
  have clean := @notMem_itemText 0x5D (by decide) (by decide)
  induction items with
  | nil => exact List.not_mem_nil
  | cons item items ih =>
    by_cases none : items = []
    · rw [none, itemsText, List.map_singleton, List.intercalate_singleton]
      exact clean item
    · rw [itemsText_cons item none, List.mem_append, List.mem_append]
      rintro ((first | comma) | later)
      · exact clean item first
      · exact absurd comma (by decide)
      · exact ih later

theorem not_denotes {text : Text} (open_end : text.getLast? ≠ some 0x5D) :
    ¬ Denotes text group := by
  rintro ⟨items, read, -⟩
  rw [readTag, if_neg fun both => open_end both.2] at read
  exact absurd read nofun

theorem covers_memIndexVector : Covers items (memIndexVector group) ↔ Covers items group :=
  forall_congr' fun _ => by rw [memIndexVector, List.mem_insertionSort]

/-- What is recorded of a tag is right if the tag is, and not too long. -/
theorem denotes_recorded_iff {terminator : Byte} :
    Denotes (recorded (ascii "MBG[" ++ itemsText items ++ [terminator])) group ↔
      Denotes (ascii "MBG[" ++ itemsText items ++ [terminator]) group ∧
        (ascii "MBG[" ++ itemsText items ++ [terminator]).length ≤ 15 := by
  by_cases short : (ascii "MBG[" ++ itemsText items ++ [terminator]).length ≤ 15
  · rw [recorded, List.take_of_length_le short]
    exact (and_iff_left short).symm
  · refine iff_of_false (not_denotes fun ends => ?_) fun right => short right.2
    -- the bracket was the last byte and is cut off
    rw [List.length_append, List.length_singleton] at short
    rw [recorded, List.take_append_of_le_length (by omega)] at ends
    rcases List.mem_append.mp (List.mem_of_mem_take (List.mem_of_getLast? ends)) with start | item
    · exact absurd start (by decide)
    · exact bracket_notMem_itemsText items item

/-- The tag has the indexes of the group, and is built with accesses inside the index vector. -/
def TagRight (group behind : List Nat) : Prop :=
  ∃ tag, createTag group behind = some tag ∧ Denotes tag.1 group ∧ ∀ i ∈ tag.2, i < group.length

/-- The word behind the index vector is always read. -/
theorem not_tagRight (nonempty : 0 < group.length) (behind : List Nat) :
    ¬ TagRight group behind := by
  rintro ⟨tag, made, -, inside⟩
  have length : (memIndexVector group).length = group.length := List.length_insertionSort ..
  obtain ⟨items, first, early, start, -, -, start_lt, built⟩ :=
    @tagLoop_spec ((memIndexVector group).length + 1) (memIndexVector group) behind 0 (by omega)
      (by omega) (ascii "MBG[") []
  obtain ⟨count, -, rfl⟩ := Option.map_eq_some_iff.mp (built.symm.trans made)
  refine absurd (inside group.length (List.mem_append_right _ (List.mem_range'_1.mpr ?_))) (lt_irrefl _)
  omega

/-- **No tag is built inside the index vector:** the word behind it is read for every group. When that
word is not the next index, the tag of a group has its indexes, and it is the only one outside which
is read. Otherwise the tag is never right. What is recorded is right if the tag is, and has at most 15
bytes. -/
theorem createTag_denotes_iff {workingConnections : List WorkingConnection}
    (formed : group ∈ groups workingConnections) (next : Nat) (rest : List Nat) :
    (∀ behind, ¬ TagRight group behind) ∧
    ((∃ tag, createTag group (next :: rest) = some tag ∧ Denotes tag.1 group) ↔
      next ≠ (memIndexVector group).getLastD 0 + 1) ∧
    ∀ tag, createTag group (next :: rest) = some tag →
      (next ≠ (memIndexVector group).getLastD 0 + 1 → ∀ i ∈ tag.2, i ≤ group.length) ∧
      (Denotes (recorded tag.1) group ↔
        next ≠ (memIndexVector group).getLastD 0 + 1 ∧ tag.1.length ≤ 15) := by
  have nonempty := List.length_pos_iff.mpr (ne_nil_of_mem_collectGroups formed)
  refine ⟨not_tagRight nonempty, ?_⟩
  have length : (memIndexVector group).length = group.length := List.length_insertionSort ..
  obtain ⟨items, first, early, start, covers, low, start_lt, built⟩ :=
    @tagLoop_spec ((memIndexVector group).length + 1) (memIndexVector group) (next :: rest) 0 (by omega)
      (by omega) (ascii "MBG[") []
  change createTag group (next :: rest) = _ at built
  rw [List.drop_zero, covers_memIndexVector] at covers
  rw [built, countOn]
  generalize (memIndexVector group).getLastD 0 = last at covers ⊢
  rw [length] at low start_lt ⊢
  by_cases on : last + 1 = next
  · -- the last range goes on behind the vector, and a comma follows it
    rw [if_pos on]
    have wrong (count : Nat) :
        ¬ Denotes (ascii "MBG[" ++ itemsText (items ++ [(first, last + (count + 1))]) ++ ascii ",")
          group := by
      refine not_denotes fun ends => ?_
      have comma : some (0x2C : Byte) = some 0x5D := List.getLast?_concat.symm.trans ends
      exact absurd comma (by decide)
    constructor
    · refine iff_of_false ?_ fun other => other on.symm
      rintro ⟨tag, same, denotes⟩
      simp only [Option.map_map, Option.map_eq_some_iff] at same
      obtain ⟨count, -, rfl⟩ := same
      exact wrong count denotes
    · intro tag same
      simp only [Option.map_map, Option.map_eq_some_iff] at same
      obtain ⟨count, -, rfl⟩ := same
      refine ⟨fun other => absurd on.symm other, ?_⟩
      refine iff_of_false (fun denotes => ?_) fun right => right.1 on.symm
      exact wrong count (denotes_recorded_iff.mp denotes).1
  · rw [if_neg on, Option.map_some]
    have right : Denotes (ascii "MBG[" ++ itemsText (items ++ [(first, last + 0)]) ++ ascii "]") group :=
      ⟨_, readTag_itemsText (by simp), covers⟩
    refine ⟨iff_of_true ⟨_, rfl, right⟩ (Ne.symm on), fun tag same => ?_⟩
    obtain rfl := Option.some.inj same
    refine ⟨fun _ i member => ?_, ?_⟩
    · rcases List.mem_append.mp member with before | here
      · exact (low i before).le
      · have := List.mem_range'_1.mp here
        omega
    · exact denotes_recorded_iff.trans (and_congr_left' (iff_of_true right (Ne.symm on)))

/-- Two neighbouring memories of one argument, at 0 and at 0x1000. -/
def twoConnections : List WorkingConnection := [⟨0, 0, 4, 0, 0x1000, false⟩, ⟨0, 0, 5, 0x1000, 0x1000, false⟩]

theorem two_memories_denoted :
    ∃ tag, createTag [4, 5] [0] = some tag ∧ Denotes tag.1 [4, 5] :=
  (createTag_denotes_iff (show [4, 5] ∈ groups twoConnections by decide +kernel) 0 []).2.1.mpr
    (by decide +kernel)

/-- The word behind the two indexes is read; when it is 6 the tag is `MBG[4:6,`. -/
theorem two_memories_read_behind :
    [4, 5] ∈ groups twoConnections ∧
    (∃ tag, createTag [4, 5] [0] = some tag ∧ ¬ ∀ i ∈ tag.2, i < [4, 5].length) ∧
    ∃ tag, createTag [4, 5] [6, 0] = some tag ∧ ¬ Denotes tag.1 [4, 5] := by
  refine ⟨by decide +kernel, ⟨_, rfl, by decide +kernel⟩, _, rfl, not_denotes ?_⟩
  decide +kernel

end Xrt.Xclbin.GroupTag
