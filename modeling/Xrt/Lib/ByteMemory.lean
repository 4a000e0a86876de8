import Mathlib.Data.Set.Card
import Mathlib.Order.CompletePartialOrder
import Mathlib.Order.Interval.Finset.Nat
import Xrt.Lib.Bytes

/-!
# Byte memory

A memory of bytes with 64-bit addresses that wrap around, and little-endian accesses of 32
bits to any address. Two accesses are apart if they share no byte. A transfer copies a range to
another memory, or inside one.
-/
namespace Xrt.Lib

abbrev ByteMem := BitVec 64 → Byte

def read32 (m : ByteMem) (a : BitVec 64) : BitVec 32 := m (a + 3) ++ m (a + 2) ++ m (a + 1) ++ m a

def write32 (m : ByteMem) (a : BitVec 64) (v : BitVec 32) : ByteMem := fun b =>
  if (b - a).toNat < 4 then v.extractLsb' (8 * (b - a).toNat) 8 else m b

def Apart (a b : BitVec 64) : Prop := 4 ≤ (a - b).toNat ∧ 4 ≤ (b - a).toNat

variable {m : ByteMem} {a b : BitVec 64} {v : BitVec 32}

theorem read32_write32_self (m : ByteMem) (a : BitVec 64) (v : BitVec 32) :
    read32 (write32 m a v) a = v := by
  have byte : ∀ i : BitVec 64, i.toNat < 4 →
      write32 m a v (a + i) = v.extractLsb' (8 * i.toNat) 8 := by
    intro i small
    have offset : a + i - a = i := by bv_omega
    rw [write32, offset, if_pos small]
  have byte0 := byte 0#64 (by decide)
  rw [BitVec.add_zero] at byte0
  rw [read32, byte 3 (by decide), byte 2 (by decide), byte 1 (by decide), byte0]
  rw [BitVec.extractLsb'_append_extractLsb'_eq_extractLsb' (by rfl),
    BitVec.extractLsb'_append_extractLsb'_eq_extractLsb' (by rfl),
    BitVec.extractLsb'_append_extractLsb'_eq_extractLsb' (by rfl)]
  exact BitVec.extractLsb'_eq_self

theorem read32_write32_apart (m : ByteMem) (v : BitVec 32) (apart : Apart a b) :
    read32 (write32 m a v) b = read32 m b := by
  obtain ⟨before, after⟩ := apart
  have byte : ∀ i : BitVec 64, i.toNat < 4 → write32 m a v (b + i) = m (b + i) := by
    intro i small
    have outside : ¬ (b + i - a).toNat < 4 := by bv_omega
    rw [write32, if_neg outside]
  have byte0 := byte 0#64 (by decide)
  rw [BitVec.add_zero] at byte0
  rw [read32, read32, byte 3 (by decide), byte 2 (by decide), byte 1 (by decide), byte0]

/-! ### Words in a row -/

/-- The words go to addresses four bytes apart. -/
def writeWords (m : ByteMem) (a : BitVec 64) : List (BitVec 32) → ByteMem
  | [] => m
  | w :: ws => writeWords (write32 m a w) (a + 4) ws

def wordAt (a : BitVec 64) (k : Nat) : BitVec 64 := a + BitVec.ofNat 64 (4 * k)

@[simp] theorem wordAt_zero (a : BitVec 64) : wordAt a 0 = a := BitVec.add_zero a

theorem wordAt_succ (a : BitVec 64) (k : Nat) : wordAt a (k + 1) = wordAt (a + 4) k := by
  rw [wordAt, wordAt, Nat.mul_add, BitVec.ofNat_add, BitVec.add_assoc, BitVec.add_comm 4]
  rfl

theorem wordAt_apart (a : BitVec 64) {j k : Nat} (hj : j < 2 ^ 32) (hk : k < 2 ^ 32) (ne : j ≠ k) :
    Apart (wordAt a j) (wordAt a k) := by
  unfold Apart wordAt
  constructor <;> bv_omega

theorem read32_writeWords_outside (m : ByteMem) (ws : List (BitVec 32))
    (outside : ∀ k < ws.length, Apart (wordAt a k) b) :
    read32 (writeWords m a ws) b = read32 m b := by
  induction ws generalizing m a with
  | nil => rfl
  | cons w ws ih =>
    have first := outside 0 (Nat.succ_pos _)
    rw [wordAt_zero] at first
    rw [writeWords, ih, read32_write32_apart m w first]
    intro k inside
    rw [← wordAt_succ]
    exact outside (k + 1) (Nat.succ_lt_succ inside)

theorem read32_writeWords (m : ByteMem) (a : BitVec 64) {ws : List (BitVec 32)} {k : Nat}
    (short : ws.length ≤ 2 ^ 32) (inside : k < ws.length) :
    read32 (writeWords m a ws) (wordAt a k) = ws.getD k 0 := by
  induction ws generalizing m a k with
  | nil => cases inside
  | cons w ws ih =>
    have shorter : ws.length ≤ 2 ^ 32 := Nat.le_trans (Nat.le_succ _) short
    cases k with
    | zero =>
      rw [writeWords, read32_writeWords_outside, wordAt_zero, read32_write32_self]
      · rfl
      · intro j inside
        rw [← wordAt_succ]
        apply wordAt_apart a _ (by decide) (Nat.succ_ne_zero j)
        exact Nat.lt_of_lt_of_le (Nat.succ_lt_succ inside) short
    | succ k =>
      rw [wordAt_succ, writeWords, ih _ _ shorter (Nat.lt_of_succ_lt_succ inside)]
      rfl

/-! ### Regions -/

/-- The addresses from `base` on. -/
def region (base : BitVec 64) (len : Nat) : Set (BitVec 64) := {a | (a - base).toNat < len}

theorem mem_region_add {base : BitVec 64} {off len : Nat} (fits : off + len ≤ 2 ^ 64) :
    a ∈ region (base + BitVec.ofNat 64 off) len ↔
      off ≤ (a - base).toNat ∧ (a - base).toNat < off + len := by
  change (a - (base + BitVec.ofNat 64 off)).toNat < len ↔ _
  have split : a - (base + BitVec.ofNat 64 off) = (a - base) - BitVec.ofNat 64 off := by bv_omega
  have bound := (a - base).isLt
  rw [split, BitVec.toNat_sub, BitVec.toNat_ofNat]
  rcases Nat.lt_or_ge off (2 ^ 64) with small | large
  · omega
  · omega

theorem ncard_region {base : BitVec 64} {len : Nat} (fits : len ≤ 2 ^ 64) :
    (region base len).ncard = len := by
  have injective : Function.Injective fun a : BitVec 64 => (a - base).toNat := by
    intro a b same
    have equal := BitVec.eq_of_toNat_eq same
    bv_omega
  have reached : Set.Iio len ⊆ Set.range fun a : BitVec 64 => (a - base).toNat := by
    intro i less
    have small : i < 2 ^ 64 := Nat.lt_of_lt_of_le less fits
    refine ⟨base + BitVec.ofNat 64 i, ?_⟩
    bv_omega
  have below : (Set.Iio len).ncard = len := by
    rw [Set.ncard_eq_toFinset_card', Set.toFinset_Iio, Nat.card_Iio]
  exact (Set.ncard_preimage_of_injective_subset_range injective reached).trans below

/-- Disjoint sets inside of one have no more elements than it. -/
theorem sum_ncard_le {α : Type} [Finite α] {sets : List (Set α)} {whole : Set α}
    (apart : sets.Pairwise Disjoint) (inside : ∀ s ∈ sets, s ⊆ whole) :
    (sets.map Set.ncard).sum ≤ whole.ncard := by
  induction sets generalizing whole with
  | nil => exact Nat.zero_le _
  | cons s sets ih =>
    obtain ⟨first, rest⟩ := List.pairwise_cons.mp apart
    obtain ⟨own, others⟩ := List.forall_mem_cons.mp inside
    have less := ih rest fun t member => Set.subset_sdiff.mpr ⟨others t member, (first t member).symm⟩
    have split := Set.ncard_sdiff_add_ncard_of_subset own
    rw [List.map_cons, List.sum_cons]
    omega

/-! ### Transfers -/

def transfer (source into : ByteMem) (src dst : BitVec 64) (n : Nat) : ByteMem := fun a =>
  if (a - dst).toNat < n then source (src + (a - dst)) else into a

section Transfer

variable {source into between : ByteMem} {src dst mid src' dst' : BitVec 64} {n n' : Nat}

theorem transfer_transfer : transfer (transfer source between src mid n) into mid dst n
    = transfer source into src dst n := by
  funext a
  by_cases inside : (a - dst).toNat < n
  · have offset : mid + (a - dst) - mid = a - dst := by bv_omega
    rw [transfer, transfer, transfer, offset, if_pos inside, if_pos inside, if_pos inside]
  · rw [transfer, if_neg inside, transfer, if_neg inside]

/-- Where a byte comes from when a range of a memory is copied inside it. -/
def origin (src dst : BitVec 64) (n : Nat) (a : BitVec 64) : BitVec 64 :=
  if (a - dst).toNat < n then src + (a - dst) else a

theorem transfer_eq_iff_origin :
    (∀ m : ByteMem, transfer m m src' dst' n' = transfer m m src dst n)
      ↔ origin src' dst' n' = origin src dst n := by
  have read : ∀ (m : ByteMem) s d k a, transfer m m s d k a = m (origin s d k a) := by
    intro m s d k a
    rw [transfer, origin]
    split <;> rfl
  constructor
  · intro same
    funext a
    -- a memory with one byte that is not zero tells addresses apart
    have byte := congrFun (same fun b => if b = origin src dst n a then 1 else 0) a
    rw [read, read] at byte
    by_contra differs
    simp [differs] at byte
  · intro same m
    funext a
    rw [read, read, same]

theorem origin_self (src : BitVec 64) (n : Nat) : origin src src n = id := by
  funext a
  have back : src + (a - src) = a := by bv_omega
  rw [origin, back, ite_self]
  rfl

theorem origin_zero (src dst : BitVec 64) : origin src dst 0 = id := rfl

theorem origin_ne_iff (moves : src ≠ dst) (a : BitVec 64) :
    origin src dst n a ≠ a ↔ (a - dst).toNat < n := by
  rw [origin]
  split
  next inside =>
    have elsewhere : src + (a - dst) ≠ a := by bv_omega
    exact iff_of_true elsewhere inside
  next outside => exact iff_of_false (fun ne => ne rfl) outside

theorem origin_start (positive : 0 < n) : origin src dst n dst = src := by
  rw [origin, BitVec.sub_self, if_pos (by exact positive), BitVec.add_zero]

theorem transfer_eq_iff (positive : 0 < n) (small : n < 2 ^ 64) (le : n' ≤ n) :
    (∀ m : ByteMem, transfer m m src' dst' n' = transfer m m src dst n)
      ↔ src = dst ∧ (src' = dst' ∨ n' = 0) ∨ src' = src ∧ dst' = dst ∧ n' = n := by
  rw [transfer_eq_iff_origin]
  constructor
  · intro same
    by_cases still : src = dst
    · refine .inl ⟨still, ?_⟩
      rcases Nat.eq_zero_or_pos n' with none | some
      · exact .inr none
      · have first := congrFun same dst'
        rw [still, origin_self, origin_start some] at first
        exact .inl first
    · have moves : src' ≠ dst' := fun equal => by
        rw [equal, origin_self] at same
        have first := congrFun same dst
        rw [origin_start positive] at first
        exact still first.symm
      have ranges : ∀ a, (a - dst').toNat < n' ↔ (a - dst).toNat < n := fun a => by
        rw [← origin_ne_iff moves, ← origin_ne_iff still, same]
      -- the range begins with a byte that is moved behind one that is not
      have first := ranges dst
      have before := ranges (dst - 1)
      have last := ranges (dst + BitVec.ofNat 64 (n - 1))
      have start : dst' = dst := by bv_omega
      subst start
      have count : n' = n := by bv_omega
      have moved := congrFun same dst'
      rw [count, origin_start positive, origin_start positive] at moved
      exact .inr ⟨moved, rfl, count⟩
  · rintro (⟨rfl, rfl | rfl⟩ | ⟨rfl, rfl, rfl⟩)
    · rw [origin_self, origin_self]
    · rw [origin_self, origin_zero]
    · rfl

end Transfer

end Xrt.Lib
