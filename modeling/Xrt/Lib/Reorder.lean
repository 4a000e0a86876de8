import Mathlib.Data.List.Basic
import Mathlib.Data.List.Nodup

/-!
# Operations in another order

A list of operations on a state may be run group by group, if an operation only ever overtakes
operations that it commutes with.
-/
namespace Xrt.Lib

variable {σ ε κ : Type*} {f : σ → ε → σ}

/-- The two operations give the same in either order. -/
def Commutes (f : σ → ε → σ) (x y : ε) : Prop := ∀ s, f (f s x) y = f (f s y) x

theorem foldl_past {x : ε} {ys : List ε} (past : ∀ y ∈ ys, Commutes f x y) (s : σ) :
    ys.foldl f (f s x) = f (ys.foldl f s) x := by
  induction ys generalizing s with
  | nil => rfl
  | cons y ys ih =>
    rw [List.foldl_cons, List.foldl_cons, past y List.mem_cons_self s]
    exact ih (fun z member => past z (List.mem_cons_of_mem y member)) (f s y)

theorem foldl_partition {p : ε → Bool} {xs : List ε}
    (overtake : xs.Pairwise fun x y => p x = false → p y = true → Commutes f x y) (s : σ) :
    xs.foldl f s = (xs.filter fun x => !p x).foldl f ((xs.filter p).foldl f s) := by
  induction xs generalizing s with
  | nil => rfl
  | cons x xs ih =>
    obtain ⟨head, tail⟩ := List.pairwise_cons.mp overtake
    rw [List.foldl_cons, ih tail (f s x)]
    cases kind : p x with
    | true => simp [kind]
    | false =>
      have past : ∀ y ∈ xs.filter p, Commutes f x y := fun y member =>
        head y (List.mem_filter.mp member).1 kind (List.mem_filter.mp member).2
      rw [foldl_past past s]
      simp [kind]

/-- The operations may be run key by key, each group in its own order, if of two operations that do
not commute the first has the first key. -/
theorem foldl_groups [DecidableEq κ] [BEq κ] [LawfulBEq κ] {key : ε → κ} {keys : List κ} {xs : List ε}
    (nodup : keys.Nodup) (all : ∀ x ∈ xs, key x ∈ keys)
    (ordered : xs.Pairwise fun x y => Commutes f x y ∨ keys.idxOf (key x) ≤ keys.idxOf (key y))
    (s : σ) :
    keys.foldl (fun s k => (xs.filter fun x => key x = k).foldl f s) s = xs.foldl f s := by
  induction keys generalizing s xs with
  | nil =>
    have none : xs = [] := List.eq_nil_iff_forall_not_mem.mpr fun x member => by
      simpa using all x member
    rw [none]
    rfl
  | cons k keys ih =>
    obtain ⟨fresh, nodup⟩ := List.nodup_cons.mp nodup
    have overtake : xs.Pairwise fun x y =>
        decide (key x = k) = false → decide (key y = k) = true → Commutes f x y := by
      refine ordered.imp ?_
      intro x y either other first
      have other : k ≠ key x := fun same => by simp [same] at other
      have first : k = key y := by simpa using (of_decide_eq_true first).symm
      refine either.resolve_right ?_
      rw [← first, List.idxOf_cons_ne _ other, List.idxOf_cons_self]
      exact Nat.not_succ_le_zero _
    rw [foldl_partition overtake s, List.foldl_cons]
    -- the rest of the keys never sees the first group
    have rest : (xs.filter fun x => !decide (key x = k)).Pairwise fun x y =>
        Commutes f x y ∨ keys.idxOf (key x) ≤ keys.idxOf (key y) := by
      refine (ordered.filter _).imp_of_mem ?_
      intro x y inX inY either
      have otherX : k ≠ key x := fun same => by simp [same] at inX
      have otherY : k ≠ key y := fun same => by simp [same] at inY
      rw [List.idxOf_cons_ne _ otherX, List.idxOf_cons_ne _ otherY] at either
      exact either.imp_right Nat.le_of_succ_le_succ
    rw [← ih nodup _ rest]
    · apply List.foldl_ext
      intro s j member
      have other : j ≠ k := fun same => fresh (same ▸ member)
      rw [List.filter_filter]
      congr 1
      apply List.filter_congr
      intro x _
      by_cases mine : key x = j
      · simp [mine, other]
      · simp [mine]
    · intro x member
      obtain ⟨inside, other⟩ := List.mem_filter.mp member
      exact (List.mem_cons.mp (all x inside)).resolve_left (by simpa using other)

end Xrt.Lib
