import Mathlib.Data.List.GetD
import Mathlib.Data.Nat.ModEq

/-!
# Windows on a ring

Memory as a function from addresses. A window is a row of cells of a ring, which goes on at the
first cell behind the last one.
-/
namespace Xrt.Lib

variable {α : Type*}

def cells (mem : Nat → α) (off count : Nat) : List α :=
  (List.range count).map fun i => mem (off + i)

def window (mem : Nat → α) (size start count : Nat) : List α :=
  (List.range count).map fun i => mem ((start + i) % size)

def store (mem : Nat → α) (off : Nat) (new : List α) : Nat → α := fun a =>
  if off ≤ a then new.getD (a - off) (mem a) else mem a

variable {mem : Nat → α} {size start count : Nat}

theorem window_congr {mem' : Nat → α}
    (same : ∀ i < count, mem ((start + i) % size) = mem' ((start + i) % size)) :
    window mem size start count = window mem' size start count :=
  List.map_congr_left fun i member => same i (List.mem_range.mp member)

theorem window_add (mem : Nat → α) (size start m n : Nat) :
    window mem size start (m + n) = window mem size start m ++ window mem size (start + m) n := by
  simp only [window, List.range_add, List.map_append, List.map_map, Function.comp_def, Nat.add_assoc]

theorem window_mod (mem : Nat → α) (size start count : Nat) :
    window mem size (start % size) count = window mem size start count := by
  simp only [window, Nat.mod_add_mod]

theorem cells_eq_window (mem : Nat → α) (inside : start + count ≤ size) :
    cells mem start count = window mem size start count := by
  apply List.map_congr_left
  intro i member
  have before : i < count := List.mem_range.mp member
  rw [Nat.mod_eq_of_lt (by omega)]

theorem store_append (mem : Nat → α) (off : Nat) (xs ys : List α) :
    store (store mem off xs) (off + xs.length) ys = store mem off (xs ++ ys) := by
  funext a
  simp only [store, List.getD_eq_getElem?_getD, List.getElem?_append]
  by_cases behind : off + xs.length ≤ a
  · have none : xs[a - off]? = none := List.getElem?_eq_none (by omega)
    rw [if_pos behind, if_pos (by omega), if_pos (by omega), if_neg (by omega), Nat.sub_add_eq, none,
      Option.getD_none]
  · rw [if_neg behind]
    by_cases first : off ≤ a
    · rw [if_pos first, if_pos first, if_pos (by omega)]
    · rw [if_neg first, if_neg first]

theorem cells_store (mem : Nat → α) (off : Nat) (new : List α) :
    cells (store mem off new) off new.length = new := by
  apply List.ext_getElem
  · simp [cells]
  · intro i _ inside
    simp [cells, store, inside]

theorem window_store (mem : Nat → α) (size start count : Nat) (new : List α)
    (room : count + new.length ≤ size)
    (whole : (start + count) % size + new.length ≤ size) :
    window (store mem ((start + count) % size) new) size start (count + new.length) =
      window mem size start count ++ new := by
  rw [window_add]
  congr 1
  · apply window_congr
    intro i before
    rw [store]
    split
    next behind =>
      -- a cell of the window that is also behind it would be a whole turn away
      apply List.getD_eq_default
      by_contra overlap
      have turn : (start + count + ((start + i) % size - (start + count) % size)) % size =
          (start + i) % size := by
        rw [← Nat.mod_add_mod, Nat.add_sub_cancel' behind, Nat.mod_mod]
      obtain ⟨turns, far⟩ := (Nat.modEq_iff_dvd' (by omega)).mp turn.symm
      cases turns with
      | zero => omega
      | succ turns =>
        rw [Nat.mul_succ] at far
        omega
    · rfl
  · apply List.ext_getElem
    · simp [window]
    · intro i _ inside
      have cell : (start + count + i) % size = (start + count) % size + i := by
        rw [← Nat.mod_add_mod, Nat.mod_eq_of_lt (by omega)]
      simp [window, store, cell, inside]

end Xrt.Lib
