import Mathlib.Algebra.BigOperators.Group.Finset.Piecewise
import Mathlib.Algebra.Order.BigOperators.Group.Finset

/-!
# The total of a finitely supported count

`HasTotal count total` says that all but finitely many of the counts are zero and that they
add up to `total`, with the finite set left open. The index type is arbitrary.
-/
namespace Xrt.Lib

open Finset

variable {ι : Type*} {count : ι → Nat} {total : Nat}

def HasTotal (count : ι → Nat) (total : Nat) : Prop :=
  ∃ support : Finset ι, (∀ i, i ∉ support → count i = 0) ∧ ∑ i ∈ support, count i = total

theorem hasTotal_zero : HasTotal (fun _ : ι => 0) 0 :=
  ⟨∅, fun _ _ => rfl, rfl⟩

theorem HasTotal.unique [DecidableEq ι] {other : Nat} (first : HasTotal count total)
    (second : HasTotal count other) : total = other := by
  obtain ⟨support, outside, rfl⟩ := first
  obtain ⟨support', outside', rfl⟩ := second
  calc ∑ i ∈ support, count i = ∑ i ∈ support ∪ support', count i :=
        sum_subset subset_union_left fun i _ absent => outside i absent
    _ = ∑ i ∈ support', count i :=
        (sum_subset subset_union_right fun i _ absent => outside' i absent).symm

theorem HasTotal.le (has : HasTotal count total) (i : ι) : count i ≤ total := by
  obtain ⟨support, outside, rfl⟩ := has
  by_cases member : i ∈ support
  · exact single_le_sum (fun _ _ => Nat.zero_le _) member
  · rw [outside i member]
    exact Nat.zero_le _

theorem HasTotal.update [DecidableEq ι] (has : HasTotal count total) (i : ι) (value : Nat) :
    HasTotal (Function.update count i value) (total - count i + value) := by
  obtain ⟨support, outside, rfl⟩ := has
  refine ⟨insert i support, ?_, ?_⟩
  · intro j absent
    rw [mem_insert, not_or] at absent
    rw [Function.update_of_ne absent.1]
    exact outside j absent.2
  · have whole : ∑ j ∈ support, count j = ∑ j ∈ insert i support, count j := by
      apply sum_subset (subset_insert i support)
      exact fun j _ absent => outside j absent
    have rest : ∑ j ∈ (insert i support).erase i, Function.update count i value j =
        ∑ j ∈ (insert i support).erase i, count j := by
      apply sum_congr rfl
      intro j member
      rw [Function.update_of_ne (ne_of_mem_erase member)]
    rw [whole, ← add_sum_erase _ _ (mem_insert_self i support), rest, Function.update_self,
      ← add_sum_erase _ count (mem_insert_self i support)]
    omega

end Xrt.Lib
