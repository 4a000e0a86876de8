import Mathlib.Data.Nat.ModEq
import Mathlib.Tactic

/-!
# Free-running counters

A free-running counter of `w` bits counts the operations of an unbounded history modulo
`2 ^ w`. `count base k` is its value after `k` operations from `base`. Differences of two
such counters are exact as long as the true distance is below `2 ^ w`, and masking one with
a power of two gives the position modulo that power, also when the counters wrap.
-/
namespace Xrt.Lib

variable {w : Nat}

variable (base : BitVec w)

def count (k : Nat) : BitVec w := base + BitVec.ofNat w k

@[simp] theorem count_zero : count base 0 = base := by
  simp [count]

theorem count_succ (k : Nat) : count base k + 1 = count base (k + 1) := by
  unfold count
  rw [BitVec.add_assoc]
  apply BitVec.eq_of_toNat_eq
  simp

theorem count_toNat (k : Nat) : (count base k).toNat = (base.toNat + k) % 2 ^ w := by
  simp [count, BitVec.toNat_add]

theorem count_sub_toNat {a b : Nat} (le : a ≤ b) (near : b - a < 2 ^ w) :
    (count base b - count base a).toNat = b - a := by
  have shift : count base b - count base a = BitVec.ofNat w (b - a) := by
    unfold count
    have split : BitVec.ofNat w b = BitVec.ofNat w a + BitVec.ofNat w (b - a) := by
      rw [← BitVec.ofNat_add]
      congr 1
      omega
    rw [split, ← BitVec.add_assoc, BitVec.add_comm (base + _), BitVec.add_sub_cancel]
  rw [shift, BitVec.toNat_ofNat, Nat.mod_eq_of_lt near]

theorem count_eq_iff {a b : Nat} (le : a ≤ b) (near : b - a < 2 ^ w) :
    count base b = count base a ↔ a = b := by
  constructor
  · intro equal
    have distance := count_sub_toNat base le near
    rw [equal, BitVec.sub_self] at distance
    simp at distance
    omega
  · rintro rfl
    rfl

section Slots

variable {n : BitVec w} {m : Nat}

theorem toNat_and_ones (x : BitVec w) {mask : BitVec w} (ones : mask.toNat = 2 ^ m - 1) :
    (x &&& mask).toNat = x.toNat % 2 ^ m := by
  rw [BitVec.toNat_and, ones, Nat.and_two_pow_sub_one_eq_mod]

theorem count_mask_toNat (power : n.toNat = 2 ^ m) (k : Nat) :
    (count base k &&& (n - 1)).toNat = (base.toNat + k) % n.toNat := by
  have below : m < w := by
    have bound := n.isLt
    rw [power] at bound
    exact (Nat.pow_lt_pow_iff_right (by decide)).mp bound
  have positive : 0 < 2 ^ m := Nat.two_pow_pos m
  have one : (1 : BitVec w).toNat = 1 := BitVec.toNat_one (by omega)
  have mask : (n - 1).toNat = 2 ^ m - 1 := by
    rw [BitVec.toNat_sub_of_le (by rw [BitVec.le_def, one, power]; exact positive), one, power]
  rw [toNat_and_ones _ mask, count_toNat, power]
  exact Nat.mod_mod_of_dvd _ (Nat.pow_dvd_pow 2 (Nat.le_of_lt below))

theorem slot_apart {r n i j : Nat} (lt : i < j)
    (same : (r + i) % n = (r + j) % n) : i + n ≤ j := by
  have divides : n ∣ r + j - (r + i) :=
    (Nat.modEq_iff_dvd' (by omega)).mp same
  have distance : r + j - (r + i) = j - i := by omega
  have bound := Nat.le_of_dvd (by omega) divides
  omega

end Slots

end Xrt.Lib
