import Mathlib.Tactic

/-!
# Byte buffers

Memory as a list of bytes: numbers in little-endian order, the ranges that a copy reads
and writes, and the transfer of a buffer through a port of 32-bit words.
-/
namespace Xrt.Lib

abbrev Byte := BitVec 8

/-- The `count` low bytes of a number, least significant byte first. -/
def encodeLe : Nat → Nat → List Byte
  | 0, _ => []
  | count + 1, value => BitVec.ofNat 8 value :: encodeLe count (value / 256)

def decodeLe : List Byte → Nat
  | [] => 0
  | byte :: bytes => byte.toNat + 256 * decodeLe bytes

@[simp] theorem length_encodeLe (count value : Nat) : (encodeLe count value).length = count := by
  induction count generalizing value with
  | zero => rfl
  | succ count ih => simp [encodeLe, ih]

variable {count off : Nat}

theorem decodeLe_encodeLe {value : Nat} (bounded : value < 256 ^ count) :
    decodeLe (encodeLe count value) = value := by
  induction count generalizing value with
  | zero =>
    have zero : value = 0 := by simpa using bounded
    subst value
    rfl
  | succ count ih =>
    have small : value / 256 < 256 ^ count := by
      exact (Nat.div_lt_iff_lt_mul (by decide)).mpr bounded
    simp only [encodeLe, decodeLe, ih small, BitVec.toNat_ofNat]
    omega

theorem decodeLe_lt (bytes : List Byte) : decodeLe bytes < 256 ^ bytes.length := by
  induction bytes with
  | nil => decide
  | cons byte bytes ih =>
    simp only [decodeLe, List.length_cons, Nat.pow_succ]
    omega

theorem encodeLe_decodeLe (bytes : List Byte) :
    encodeLe bytes.length (decodeLe bytes) = bytes := by
  induction bytes with
  | nil => rfl
  | cons byte bytes ih =>
    have low : BitVec.ofNat 8 (byte.toNat + 256 * decodeLe bytes) = byte := by
      apply BitVec.eq_of_toNat_eq
      rw [BitVec.toNat_ofNat]
      omega
    have high : (byte.toNat + 256 * decodeLe bytes) / 256 = decodeLe bytes := by omega
    simp only [decodeLe, List.length_cons, encodeLe, low, high, ih]

theorem decodeLe_append (front back : List Byte) :
    decodeLe (front ++ back) = decodeLe front + 256 ^ front.length * decodeLe back := by
  induction front with
  | nil => simp [decodeLe]
  | cons b front ih =>
    rw [List.cons_append, decodeLe, decodeLe, ih, List.length_cons, Nat.pow_succ]
    ring

/-- The `count` low bytes of a number, most significant byte first. -/
def encodeBe (count value : Nat) : List Byte := (encodeLe count value).reverse

def decodeBe (bytes : List Byte) : Nat := decodeLe bytes.reverse

theorem decodeBe_lt (bytes : List Byte) : decodeBe bytes < 256 ^ bytes.length := by
  have bound := decodeLe_lt bytes.reverse
  rwa [List.length_reverse] at bound

/-- The value of a 32-bit expression. -/
def u32 (n : Nat) : Nat := n % 2 ^ 32

theorem u32_of_lt {n : Nat} (small : n < 2 ^ 32) : u32 n = n := Nat.mod_eq_of_lt small

theorem u32_sub {a b : Nat} (le : a ≤ b) (small : b < 2 ^ 32) : u32 (b + 2 ^ 32 - a) = b - a := by
  unfold u32
  omega

/-! ## Ranges -/

variable {α : Type*} {xs new : List α}

def slice (xs : List α) (off count : Nat) : List α := (xs.drop off).take count

def patch (xs : List α) (off : Nat) (new : List α) : List α :=
  xs.take off ++ new ++ xs.drop (off + new.length)

theorem length_slice (inside : off + count ≤ xs.length) : (slice xs off count).length = count := by
  simp only [slice, List.length_take, List.length_drop]
  omega

theorem slice_take {bound : Nat} (within : off + count ≤ bound) :
    slice (xs.take bound) off count = slice xs off count := by
  rw [slice, slice, List.drop_take, List.take_take, Nat.min_eq_left (by omega)]

theorem take_append_slice (xs : List α) (off count : Nat) :
    xs.take off ++ slice xs off count = xs.take (off + count) :=
  List.take_add.symm

theorem length_patch (inside : off + new.length ≤ xs.length) :
    (patch xs off new).length = xs.length := by
  simp only [patch, List.length_append, List.length_take, List.length_drop]
  omega

theorem slice_patch_self (new : List α) (inside : off ≤ xs.length) :
    slice (patch xs off new) off new.length = new := by
  have start : (xs.take off).length = off := by simpa using inside
  rw [slice, patch, List.append_assoc, List.drop_left' start, List.take_left' rfl]

theorem slice_patch_before {at' : Nat} (before : at' + count ≤ off) (inside : off ≤ xs.length) :
    slice (patch xs off new) at' count = slice xs at' count := by
  have start : (xs.take off).length = off := by simpa using inside
  rw [slice, slice, patch, List.append_assoc, List.drop_append_of_le_length (by omega),
    List.take_append_of_le_length (by simp only [List.length_drop]; omega), List.drop_take,
    List.take_take, Nat.min_eq_left (by omega)]

theorem slice_patch_after {at' : Nat} (after : off + new.length ≤ at') (inside : off ≤ xs.length) :
    slice (patch xs off new) at' count = slice xs at' count := by
  have start : (xs.take off ++ new).length = off + new.length := by
    simp only [List.length_append, List.length_take]
    omega
  obtain ⟨gap, rfl⟩ := Nat.exists_eq_add_of_le after
  rw [slice, slice, patch, ← List.drop_drop, List.drop_left' start, List.drop_drop]

theorem patch_patch (first second : List α) (inside : off ≤ xs.length) :
    patch (patch xs off first) (off + first.length) second = patch xs off (first ++ second) := by
  have start : (xs.take off ++ first).length = off + first.length := by
    simp only [List.length_append, List.length_take]
    omega
  simp only [patch]
  rw [List.take_left' start, ← List.drop_drop, List.drop_left' start, List.drop_drop]
  simp only [List.append_assoc, List.length_append, Nat.add_assoc]

/-- `part` stands in the list at `off`. -/
def HasAt (xs : List α) (off : Nat) (part : List α) : Prop :=
  off + part.length ≤ xs.length ∧ slice xs off part.length = part

theorem slice_add (xs : List α) (off first second : Nat) :
    slice xs off (first + second) = slice xs off first ++ slice xs (off + first) second := by
  rw [slice, slice, slice, List.take_add, List.drop_drop]

theorem slice_patch_front (fits : new.length ≤ count) (inside : off ≤ xs.length) :
    slice (patch xs off new) off count = new ++ (slice xs off count).drop new.length := by
  obtain ⟨more, rfl⟩ := Nat.exists_eq_add_of_le fits
  have later : (slice xs off (new.length + more)).drop new.length
      = slice xs (off + new.length) more := by
    rw [slice, slice, List.drop_take, List.drop_drop, Nat.add_sub_cancel_left]
  rw [slice_add, slice_patch_self new inside, slice_patch_after le_rfl inside, later]

theorem hasAt_append {first second : List α} : HasAt xs off (first ++ second) ↔
      HasAt xs off first ∧ HasAt xs (off + first.length) second := by
  simp only [HasAt, List.length_append, slice_add]
  constructor
  · rintro ⟨inside, same⟩
    obtain ⟨left, right⟩ := List.append_inj same (length_slice (by omega))
    exact ⟨⟨by omega, left⟩, by omega, right⟩
  · rintro ⟨⟨_, left⟩, inside, right⟩
    exact ⟨by omega, by rw [left, right]⟩

theorem slice_append_left {front : List α} (inside : off + count ≤ front.length)
    (back : List α) : slice (front ++ back) off count = slice front off count := by
  rw [slice, List.drop_append_of_le_length (by omega), List.take_append_of_le_length]
  · rfl
  · rw [List.length_drop]
    omega

theorem hasAt_middle (before part after : List α) :
    HasAt (before ++ part ++ after) before.length part := by
  constructor
  · simp only [List.length_append]
    omega
  · rw [slice, List.append_assoc, List.drop_left, List.take_left]

theorem slice_append_right {front : List α} {start : Nat} (length : front.length = start)
    (back : List α) (off count : Nat) :
    slice (front ++ back) (start + off) count = slice back off count := by
  rw [slice, slice, ← length, ← List.drop_drop, List.drop_left]

theorem slice_flatMap {β : Type*} {f : β → List α} {width : Nat} (sized : ∀ b, (f b).length = width)
    {items : List β} {i : Nat} {item : β} (rest : List α) (here : items[i]? = some item) :
    slice (items.flatMap f ++ rest) (width * i) width = f item := by
  induction items generalizing i with
  | nil => simp at here
  | cons b items ih =>
    rw [List.flatMap_cons, List.append_assoc, slice]
    cases i with
    | zero =>
      obtain rfl : b = item := by simpa using here
      rw [Nat.mul_zero, List.drop_zero, List.take_left' (sized b)]
    | succ i =>
      have later := ih (i := i) (by simpa using here)
      rw [Nat.mul_succ, Nat.add_comm, ← List.drop_drop, List.drop_left' (sized b)]
      exact later

/-! ## Words -/

def words : List Byte → List (BitVec 32)
  | a :: b :: c :: d :: rest => BitVec.ofNat 32 (decodeLe [a, b, c, d]) :: words rest
  | _ => []

def unwords (ws : List (BitVec 32)) : List Byte := ws.flatMap fun w => encodeLe 4 w.toNat

theorem length_unwords (ws : List (BitVec 32)) : (unwords ws).length = 4 * ws.length := by
  induction ws with
  | nil => rfl
  | cons w ws ih =>
    simp only [unwords, List.flatMap_cons, List.length_append, length_encodeLe,
      List.length_cons] at ih ⊢
    omega

theorem unwords_words {bytes : List Byte} (whole : 4 ∣ bytes.length) :
    unwords (words bytes) = bytes := by
  induction bytes using words.induct with
  | case1 a b c d rest ih =>
    have tail : 4 ∣ rest.length := by
      simp only [List.length_cons] at whole
      omega
    have bounded : decodeLe [a, b, c, d] < 2 ^ 32 :=
      (decodeLe_lt [a, b, c, d]).trans_eq (by norm_num)
    have word : encodeLe 4 (decodeLe [a, b, c, d]) = [a, b, c, d] := encodeLe_decodeLe [a, b, c, d]
    have rests := ih tail
    rw [unwords] at rests ⊢
    rw [words, List.flatMap_cons, BitVec.toNat_ofNat, Nat.mod_eq_of_lt bounded, word, rests]
    rfl
  | case2 bytes short =>
    match bytes, short with
    | [], _ => rfl
    | [_], _ | [_, _], _ | [_, _, _], _ => simp at whole
    | a :: b :: c :: d :: rest, short => exact absurd rfl (short a b c d rest)

theorem length_words {bytes : List Byte} (whole : 4 ∣ bytes.length) :
    4 * (words bytes).length = bytes.length := by
  rw [← length_unwords, unwords_words whole]

end Xrt.Lib
