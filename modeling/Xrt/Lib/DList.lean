import Mathlib.Logic.Function.Basic
import Mathlib.Tactic

/-!
# Doubly linked lists

Cells with pointers to the previous and to the next cell, and a pointer to the first one. `Chain`
says which list a pointer leads through; insertion at the front and deletion of a cell are proved
against it. A chain depends on the pointers of its own cells only, so that several lists can share
the cells.
-/
namespace Xrt.Lib

/-- The pointers of all cells. -/
structure Links (α : Type) where
  prev : α → Option α
  next : α → Option α

namespace Links

variable {α : Type}

/-- The pointer leads through the cells of the list, to the end, and each of them points back. -/
def Chain (l : Links α) : Option α → Option α → List α → Prop
  | _, head, [] => head = none
  | before, head, x :: xs => head = some x ∧ l.prev x = before ∧ l.Chain (some x) (l.next x) xs

/-- The first cell behind a pointer that has the property. No value: the way is longer than the
fuel. -/
def search (l : Links α) (p : α → Bool) : Nat → Option α → Option (Option α)
  | _, none => some none
  | 0, some _ => none
  | fuel + 1, some x => if p x then some (some x) else l.search p fuel (l.next x)

/-- The cells behind a pointer, as many as there is fuel for. -/
def toList (l : Links α) : Nat → Option α → List α
  | _, none => []
  | 0, some _ => []
  | fuel + 1, some x => x :: l.toList fuel (l.next x)

variable {l l' : Links α} {x y : α} {xs ys : List α} {before head : Option α}

section

variable (chain : l.Chain before head xs)
include chain

theorem Chain.congr
    (same : ∀ x ∈ xs, l'.prev x = l.prev x ∧ l'.next x = l.next x) : l'.Chain before head xs := by
  induction xs generalizing before head with
  | nil => exact chain
  | cons x xs ih =>
    obtain ⟨first, back, rest⟩ := chain
    obtain ⟨prev, next⟩ := same x List.mem_cons_self
    refine ⟨first, prev.trans back, ?_⟩
    rw [next]
    exact ih rest fun y member => same y (List.mem_cons_of_mem x member)

theorem Chain.unique {before' : Option α} (other : l.Chain before' head ys) : xs = ys := by
  induction xs generalizing before before' head ys with
  | nil =>
    cases ys with
    | nil => rfl
    | cons y ys => exact absurd (chain.symm.trans other.1) nofun
  | cons x xs ih =>
    cases ys with
    | nil => exact absurd (other.symm.trans chain.1) nofun
    | cons y ys =>
      obtain ⟨first, -, rest⟩ := chain
      obtain ⟨first', -, rest'⟩ := other
      cases first.symm.trans first'
      rw [ih rest rest']

theorem Chain.head_ne (fresh : x ∉ xs) : head ≠ some x := by
  rintro rfl
  cases xs with
  | nil => cases chain
  | cons y xs =>
    cases chain.1
    exact fresh List.mem_cons_self

theorem Chain.mem_of_next (member : x ∈ xs) (next : l.next x = some y) : y ∈ xs := by
  induction xs generalizing before head with
  | nil => cases member
  | cons z xs ih =>
    obtain ⟨-, -, rest⟩ := chain
    rcases List.mem_cons.mp member with rfl | later
    · rw [next] at rest
      cases xs with
      | nil => cases rest
      | cons w xs =>
        cases rest.1
        exact List.mem_cons_of_mem x List.mem_cons_self
    · exact List.mem_cons_of_mem z (ih rest later)

theorem Chain.search (p : α → Bool) {fuel : Nat}
    (enough : xs.length ≤ fuel) : l.search p fuel head = some (xs.find? p) := by
  induction xs generalizing before head fuel with
  | nil =>
    cases chain
    cases fuel <;> rfl
  | cons x xs ih =>
    obtain ⟨rfl, -, rest⟩ := chain
    cases fuel with
    | zero => cases enough
    | succ fuel =>
      rw [Links.search, List.find?_cons]
      by_cases found : p x
      · simp [found]
      · simp only [found]
        exact ih rest (Nat.le_of_succ_le_succ enough)

theorem Chain.toList {fuel : Nat} (enough : xs.length ≤ fuel) : l.toList fuel head = xs := by
  induction xs generalizing before head fuel with
  | nil =>
    cases chain
    cases fuel <;> rfl
  | cons x xs ih =>
    obtain ⟨rfl, -, rest⟩ := chain
    cases fuel with
    | zero => cases enough
    | succ fuel => rw [Links.toList, ih rest (Nat.le_of_succ_le_succ enough)]

end

/-! ### Setting pointers -/

variable [DecidableEq α]

def setPrev (l : Links α) (x : α) (target : Option α) : Links α :=
  { l with prev := Function.update l.prev x target }

def setNext (l : Links α) (x : α) (target : Option α) : Links α :=
  { l with next := Function.update l.next x target }

def setPrevOf (l : Links α) (cell target : Option α) : Links α :=
  match cell with
  | none => l
  | some x => l.setPrev x target

/-- The cell becomes the first one. -/
def insert (l : Links α) (head : Option α) (node : α) : Links α × Option α :=
  let l := (l.setPrev node none).setNext node head
  (l.setPrevOf head (some node), some node)

/-- The cell is taken out; its own pointers stay as they are. -/
def delete (l : Links α) (head : Option α) (node : α) : Links α × Option α :=
  match l.prev node with
  | none => (l.setPrevOf (l.next node) none, l.next node)
  | some p =>
    let l' := l.setNext p (l.next node)
    (l'.setPrevOf (l'.next node) (l'.prev node), head)

theorem setPrev_prev_self (l : Links α) (x : α) (target : Option α) : (l.setPrev x target).prev x = target :=
  Function.update_self ..

theorem setPrev_prev_of_ne (l : Links α) (target : Option α) (other : y ≠ x) :
    (l.setPrev x target).prev y = l.prev y :=
  Function.update_of_ne other ..

theorem setNext_next_self (l : Links α) (x : α) (target : Option α) : (l.setNext x target).next x = target :=
  Function.update_self ..

theorem setNext_next_of_ne (l : Links α) (target : Option α) (other : y ≠ x) :
    (l.setNext x target).next y = l.next y :=
  Function.update_of_ne other ..

@[simp]
theorem setNext_prev (l : Links α) (x : α) (target : Option α) : (l.setNext x target).prev = l.prev := rfl

@[simp]
theorem setPrevOf_next (l : Links α) (cell target : Option α) : (l.setPrevOf cell target).next = l.next := by
  cases cell <;> rfl

theorem setPrevOf_prev_of_ne (l : Links α) (target : Option α) {cell : Option α} (other : cell ≠ some y) :
    (l.setPrevOf cell target).prev y = l.prev y := by
  cases cell with
  | none => rfl
  | some x => exact setPrev_prev_of_ne l target fun same => other (same ▸ rfl)

theorem Chain.setPrevOf (chain : l.Chain before head xs) (nodup : xs.Nodup) (target : Option α) :
    (l.setPrevOf head target).Chain target head xs := by
  cases xs with
  | nil => exact chain
  | cons x xs =>
    obtain ⟨rfl, -, rest⟩ := chain
    obtain ⟨fresh, -⟩ := List.nodup_cons.mp nodup
    refine ⟨rfl, setPrev_prev_self l x target, rest.congr fun y member => ⟨?_, rfl⟩⟩
    exact setPrev_prev_of_ne l target (ne_of_mem_of_not_mem member fresh)

/-! ### Insertion -/

theorem insert_frame (l : Links α) (head : Option α) (other : y ≠ x) (behind : head ≠ some y) :
    (l.insert head x).1.prev y = l.prev y ∧ (l.insert head x).1.next y = l.next y := by
  constructor
  · refine (setPrevOf_prev_of_ne _ _ behind).trans ?_
    exact setPrev_prev_of_ne l none other
  · refine (congrFun (setPrevOf_next ..) y).trans ?_
    exact setNext_next_of_ne _ head other

theorem Chain.insert (chain : l.Chain none head xs) (nodup : xs.Nodup) (fresh : x ∉ xs) :
    (l.insert head x).1.Chain none (l.insert head x).2 (x :: xs) := by
  have unmoved : ((l.setPrev x none).setNext x head).Chain none head xs := by
    refine chain.congr fun y member => ?_
    have other := ne_of_mem_of_not_mem member fresh
    exact ⟨setPrev_prev_of_ne l none other, setNext_next_of_ne _ head other⟩
  have behind := chain.head_ne fresh
  have next : (l.insert head x).1.next x = head :=
    (congrFun (setPrevOf_next ..) x).trans (setNext_next_self _ x head)
  refine ⟨rfl, ?_, ?_⟩
  · exact (setPrevOf_prev_of_ne _ _ behind).trans (setPrev_prev_self l x none)
  · rw [next]
    exact unmoved.setPrevOf nodup (some x)

/-! ### Deletion -/

theorem Chain.linkPast {p : α} (chain : l.Chain before head xs) (nodup : xs.Nodup) (fresh : p ∉ xs) :
    ((l.setNext p head).setPrevOf head (some p)).Chain (some p) head xs := by
  have unmoved : (l.setNext p head).Chain before head xs := by
    refine chain.congr fun y member => ⟨rfl, ?_⟩
    exact setNext_next_of_ne l head (ne_of_mem_of_not_mem member fresh)
  exact unmoved.setPrevOf nodup (some p)

theorem Chain.bypass {a : α} {as : List α} (chain : l.Chain before head (a :: as ++ x :: xs))
    (nodup : (a :: as ++ x :: xs).Nodup) :
    ∃ p ∈ a :: as, l.prev x = some p
      ∧ ((l.setNext p (l.next x)).setPrevOf (l.next x) (some p)).Chain before head
        (a :: as ++ xs) := by
  -- the induction is on the cells between the first one and the one that goes
  induction as generalizing a before head with
  | nil =>
    obtain ⟨first, back, middle, own, rest⟩ := chain
    obtain ⟨outside, nodup⟩ := List.nodup_cons.mp nodup
    have fresh : a ∉ xs := fun member => outside (List.mem_cons_of_mem x member)
    refine ⟨a, List.mem_cons_self, own, first, ?_, ?_⟩
    · exact (setPrevOf_prev_of_ne _ _ (rest.head_ne fresh)).trans back
    · rw [setPrevOf_next, setNext_next_self]
      exact rest.linkPast (List.nodup_cons.mp nodup).2 fresh
  | cons a' as ih =>
    obtain ⟨first, back, rest⟩ := chain
    obtain ⟨outside, nodup⟩ := List.nodup_cons.mp nodup
    obtain ⟨p, member, own, linked⟩ := ih rest nodup
    refine ⟨p, List.mem_cons_of_mem a member, own, first, ?_, ?_⟩
    · have target : l.next x ≠ some a := by
        intro next
        have inside : x ∈ a' :: as ++ x :: xs := List.mem_append_right _ List.mem_cons_self
        exact outside (rest.mem_of_next inside next)
      exact (setPrevOf_prev_of_ne _ _ target).trans back
    · have other : a ≠ p := by
        rintro rfl
        exact outside (List.mem_append_left _ member)
      rw [setPrevOf_next, setNext_next_of_ne l _ other]
      exact linked

/-- A cell is taken out of its chain. Its own pointer to the next cell stays, and so do the pointers
of cells of other chains. -/
theorem Chain.delete {as : List α} (chain : l.Chain none head (as ++ x :: xs))
    (nodup : (as ++ x :: xs).Nodup) :
    (l.delete head x).1.Chain none (l.delete head x).2 (as ++ xs)
      ∧ (l.delete head x).1.next x = l.next x
      ∧ ∀ y, y ∉ as ++ x :: xs →
        (l.delete head x).1.prev y = l.prev y ∧ (l.delete head x).1.next y = l.next y := by
  have inside : x ∈ as ++ x :: xs := List.mem_append_right _ List.mem_cons_self
  have target : ∀ y, y ∉ as ++ x :: xs → l.next x ≠ some y :=
    fun y outside next => outside (chain.mem_of_next inside next)
  cases as with
  | nil =>
    obtain ⟨-, back, rest⟩ := chain
    unfold Links.delete
    rw [back]
    refine ⟨rest.setPrevOf (List.nodup_cons.mp nodup).2 none, ?_, fun y outside => ⟨?_, ?_⟩⟩
    · rw [setPrevOf_next]
    · exact setPrevOf_prev_of_ne l none (target y outside)
    · rw [setPrevOf_next]
  | cons a as =>
    obtain ⟨p, member, own, linked⟩ := chain.bypass nodup
    have apart : x ≠ p := by
      rintro rfl
      exact List.disjoint_of_nodup_append nodup member List.mem_cons_self
    unfold Links.delete
    simp only [setNext_next_of_ne l _ apart, setNext_prev, own]
    refine ⟨linked, ?_, fun y outside => ⟨?_, ?_⟩⟩
    · rw [setPrevOf_next, setNext_next_of_ne l _ apart]
    · exact setPrevOf_prev_of_ne _ _ (target y outside)
    · have other : y ≠ p := by
        rintro rfl
        exact outside (List.mem_append_left _ member)
      rw [setPrevOf_next, setNext_next_of_ne l _ other]

end Links

end Xrt.Lib
