import Mathlib.Tactic

/-!
# Indexed lists

Case analysis for an index into a list that one step has extended or changed at one place.
-/
namespace Xrt.Lib

variable {α : Type*}

variable {xs : List α} {x y : α} {j : Nat} {p : α → Bool}

theorem getElem?_concat_cases (found : (xs ++ [x])[j]? = some y) :
    xs[j]? = some y ∨ (j = xs.length ∧ y = x) := by
  rcases Nat.lt_or_ge j xs.length with old | new
  · rw [List.getElem?_append_left old] at found
    exact Or.inl found
  · rw [List.getElem?_append_right new, List.getElem?_singleton] at found
    split at found
    next last =>
      cases found
      exact Or.inr ⟨by omega, rfl⟩
    · cases found

theorem getElem?_concat_of_some (x : α) (found : xs[j]? = some y) : (xs ++ [x])[j]? = some y := by
  rw [List.getElem?_append_left (List.getElem?_eq_some_iff.mp found).1]
  exact found

theorem getElem?_set_cases {i : Nat} (found : (xs.set i x)[j]? = some y) :
    (j = i ∧ y = x) ∨ (j ≠ i ∧ xs[j]? = some y) := by
  rw [List.getElem?_set] at found
  split at found
  next same =>
    split at found
    · cases found
      exact Or.inl ⟨same.symm, rfl⟩
    · cases found
  next other => exact Or.inr ⟨fun same => other same.symm, found⟩

theorem prefix_concat_of_getElem? {ys : List α} (short : xs <+: ys)
    (follows : ys[xs.length]? = some x) : xs ++ [x] <+: ys := by
  obtain ⟨rest, rfl⟩ := short
  rw [List.getElem?_append_right (Nat.le_refl _), Nat.sub_self] at follows
  cases rest with
  | nil => cases follows
  | cons y rest =>
    cases follows
    exact ⟨rest, by simp⟩

theorem takeWhile_map_prefix {β γ : Type*} {q : β → Bool} {f : α → γ} {g : β → γ} {ys : List β}
    (partner : ∀ (j : Nat) x, xs[j]? = some x → p x = true →
      ∃ y, ys[j]? = some y ∧ q y = true ∧ f x = g y) :
    (xs.takeWhile p).map f <+: (ys.takeWhile q).map g := by
  induction xs generalizing ys with
  | nil => exact List.nil_prefix
  | cons x xs ih =>
    cases accepted : p x with
    | false =>
      rw [List.takeWhile_cons_of_neg (by simp [accepted])]
      exact List.nil_prefix
    | true =>
      obtain ⟨y, first, acceptedY, same⟩ := partner 0 x rfl accepted
      cases ys with
      | nil => cases first
      | cons z ys =>
        cases first
        rw [List.takeWhile_cons_of_pos accepted, List.takeWhile_cons_of_pos acceptedY,
          List.map_cons, List.map_cons, same]
        exact (List.prefix_cons_inj _).mpr (ih fun j x found => partner (j + 1) x found)

theorem filter_cons_eraseP {κ : Type*} [DecidableEq κ] {key : α → κ} {k : κ}
    (found : xs.find? (key · = k) = some x) (k' : κ) :
    (x :: xs.eraseP (key · = k)).filter (key · = k') = xs.filter (key · = k') := by
  induction xs with
  | nil => cases found
  | cons y ys ih =>
    by_cases first : key y = k
    · simp only [List.find?_cons, first, decide_true, Option.some.injEq] at found
      subst found
      have erased : (y :: ys).eraseP (key · = k) = ys :=
        List.eraseP_cons_of_pos (by simpa using first)
      rw [erased]
    · simp only [List.find?_cons, first, decide_false] at found
      have ih := ih found
      have owner : key x = k := by simpa using List.find?_some found
      simp only [List.eraseP_cons, first, decide_false, cond_false]
      by_cases here : key y = k'
      · have away : key x ≠ k' := fun same => first (here.trans (same.symm.trans owner))
        simp only [List.filter_cons, here, away, decide_true, decide_false, if_true] at ih ⊢
        simpa using ih
      · simpa [List.filter_cons, here] using ih

theorem filter_eraseP_self (p : α → Bool) (xs : List α) :
    (xs.eraseP p).filter p = (xs.filter p).tail := by
  induction xs with
  | nil => rfl
  | cons x xs ih =>
    cases holds : p x with
    | true => rw [List.eraseP_cons_of_pos holds, List.filter_cons_of_pos holds, List.tail_cons]
    | false =>
      have not : ¬ p x = true := ne_true_of_eq_false holds
      rw [List.eraseP_cons_of_neg not, List.filter_cons_of_neg not, List.filter_cons_of_neg not, ih]

theorem filter_eraseP_of_apart {q : α → Bool} (apart : ∀ x, p x = true → q x = false)
    (xs : List α) : (xs.eraseP p).filter q = xs.filter q := by
  induction xs with
  | nil => rfl
  | cons x xs ih =>
    cases holds : p x with
    | true =>
      rw [List.eraseP_cons_of_pos holds, List.filter_cons_of_neg (ne_true_of_eq_false (apart x holds))]
    | false => rw [List.eraseP_cons_of_neg (ne_true_of_eq_false holds), List.filter_cons, List.filter_cons, ih]

theorem filter_notMem_map_filter {β : Type*} [DecidableEq β] {name : α → β}
    (distinct : (xs.map name).Nodup) (chosen : α → Bool) :
    (xs.map name).filter (· ∉ (xs.filter chosen).map name) =
      (xs.filter fun x => !chosen x).map name := by
  rw [List.filter_map]
  congr 1
  apply List.filter_congr
  intro x member
  have named : name x ∈ (xs.filter chosen).map name ↔ chosen x = true := by
    constructor
    · intro found
      obtain ⟨y, kept, same⟩ := List.mem_map.mp found
      have other := List.mem_filter.mp kept
      rw [← List.inj_on_of_nodup_map distinct other.1 member same]
      exact other.2
    · exact fun picked => List.mem_map_of_mem (List.mem_filter.mpr ⟨member, picked⟩)
  simp only [Function.comp_apply, named]
  cases chosen x <;> rfl

theorem countP_eq_length_left {before after : List α} (inside : ∀ x ∈ before, p x = true)
    (outside : ∀ x ∈ after, p x = false) : (before ++ after).countP p = before.length := by
  have none : after.countP p = 0 := List.countP_eq_zero.mpr fun x member => by simp [outside x member]
  rw [List.countP_append, List.countP_eq_length.mpr inside, none, Nat.add_zero]

end Xrt.Lib
