import Mathlib.Data.List.TakeWhile
import Xrt.Lib.Bytes

/-!
# Strings that end with a NUL

The bytes of a buffer up to the next NUL, as a pointer to characters is read.
-/
namespace Xrt.Lib

def cString (bytes : List Byte) : List Byte := bytes.takeWhile (· ≠ 0)

def NulFree (bytes : List Byte) : Prop := ∀ b ∈ bytes, b ≠ 0

theorem nulFree_cString (bytes : List Byte) : NulFree (cString bytes) := by
  intro b member
  simpa using List.all_eq_true.mp List.all_takeWhile b member

theorem cString_eq_iff {bytes : List Byte} : cString bytes = bytes ↔ NulFree bytes := by
  constructor
  · intro same
    rw [← same]
    exact nulFree_cString bytes
  · intro free
    exact List.takeWhile_eq_self_iff.mpr fun b member => by simpa using free b member

theorem cString_append {name : List Byte} (free : NulFree name) (rest : List Byte) :
    cString (name ++ 0 :: rest) = name := by
  unfold cString
  induction name with
  | nil => rfl
  | cons b bytes ih =>
    have other : b ≠ 0 := free b List.mem_cons_self
    rw [List.cons_append, List.takeWhile_cons_of_pos (by simpa using other),
      ih fun c member => free c (List.mem_cons_of_mem b member)]

theorem cString_append_of_mem {front : List Byte} (ended : 0 ∈ front) (rest : List Byte) :
    cString (front ++ rest) = cString front := by
  unfold cString
  induction front with
  | nil => simp at ended
  | cons b bytes ih =>
    by_cases last : b = 0
    · simp [last]
    · have later : 0 ∈ bytes := (List.mem_cons.mp ended).resolve_left (Ne.symm last)
      rw [List.cons_append, List.takeWhile_cons_of_pos (by simpa using last),
        List.takeWhile_cons_of_pos (by simpa using last), ih later]

end Xrt.Lib
