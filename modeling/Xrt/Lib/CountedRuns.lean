import Mathlib.Tactic

/-!
# Counted runs

A stream of tagged items, stored as runs: a code word for the tag, a word with the number of
items, and the items one after the other. Items are rows of words.
-/
namespace Xrt.Lib

variable {κ ω : Type}

structure Run (κ ω : Type) where
  tag : κ
  items : List (List ω)
deriving DecidableEq

namespace Run

def encodeRun (code : κ → ω) (count : Nat → ω) (r : Run κ ω) : List ω :=
  code r.tag :: count r.items.length :: r.items.flatten

def encode (code : κ → ω) (count : Nat → ω) (rs : List (Run κ ω)) : List ω :=
  rs.flatMap (encodeRun code count)

/-- The tagged items in their order, whatever the runs. -/
def listing (rs : List (Run κ ω)) : List (κ × List ω) :=
  rs.flatMap fun r => r.items.map (Prod.mk r.tag)

/-- A run holds at least one item, and its tag says how long each item is. -/
structure WellFormed (width : κ → Nat) (r : Run κ ω) : Prop where
  nonempty : r.items ≠ []
  sized : ∀ i ∈ r.items, i.length = width r.tag

variable {code : κ → ω} {count : Nat → ω} {width : κ → Nat} {r : Run κ ω} {rs : List (Run κ ω)}

@[simp] theorem encode_cons (r : Run κ ω) (rs : List (Run κ ω)) :
    encode code count (r :: rs) = encodeRun code count r ++ encode code count rs := rfl

@[simp] theorem listing_cons (r : Run κ ω) (rs : List (Run κ ω)) :
    listing (r :: rs) = r.items.map (Prod.mk r.tag) ++ listing rs := rfl

theorem WellFormed.length_le (code : κ → ω) (count : Nat → ω) (formed : WellFormed width r) :
    2 + width r.tag ≤ (encodeRun code count r).length := by
  obtain ⟨tag, items⟩ := r
  cases items with
  | nil => exact absurd rfl formed.nonempty
  | cons i is =>
    have first : i.length = width tag := formed.sized i List.mem_cons_self
    simp only [encodeRun, List.flatten_cons, List.length_cons, List.length_append]
    omega

theorem length_flatten_of_sized {items : List (List ω)} {w : Nat}
    (sized : ∀ i ∈ items, i.length = w) : items.flatten.length = items.length * w := by
  induction items with
  | nil => simp
  | cons i is ih =>
    rw [List.flatten_cons, List.length_append, sized i List.mem_cons_self,
      ih fun j member => sized j (List.mem_cons_of_mem i member), List.length_cons]
    ring

def shape (rs : List (Run κ ω)) : List (κ × Nat) := rs.map fun r => (r.tag, r.items.length)

end Run

end Xrt.Lib
