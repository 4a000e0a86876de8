import Mathlib.Tactic

/-!
# Ranges of addresses

Lists of half-open ranges, up to how often they cover each address. Splitting a range, joining two
that meet and reordering a list do not change that, and a list that covers every address of a range
once is a partition of it.
-/
namespace Xrt.Lib

structure Range where
  start : Nat
  size : Nat
deriving DecidableEq, Repr

def Range.Has (r : Range) (a : Nat) : Prop := r.start ≤ a ∧ a < r.start + r.size

instance (r : Range) (a : Nat) : Decidable (r.Has a) := inferInstanceAs (Decidable (_ ∧ _))

/-- No address is in both. -/
def Range.Disjoint (r s : Range) : Prop := ∀ a, ¬ (r.Has a ∧ s.Has a)

variable {r s whole : Range} {rs ss : List Range} {a : Nat}

theorem Range.has_start (positive : 0 < r.size) : r.Has r.start :=
  ⟨le_rfl, Nat.lt_add_of_pos_right positive⟩

theorem Range.has_iff_has {p q n : Nat} :
    (∀ a, (⟨p, n⟩ : Range).Has a ↔ (⟨q, n⟩ : Range).Has a) ↔ n = 0 ∨ p = q := by
  constructor
  · intro same
    have first := same p
    have second := same q
    simp only [Range.Has] at first second
    omega
  · rintro (rfl | rfl) a
    · simp only [Range.Has]
      omega
    · rfl

theorem Range.Disjoint.before_or_after (disjoint : r.Disjoint s) (left : 0 < r.size)
    (right : 0 < s.size) : r.start + r.size ≤ s.start ∨ s.start + s.size ≤ r.start := by
  have first := disjoint r.start
  have second := disjoint s.start
  simp only [Range.Has] at first second
  omega

def cover (rs : List Range) (a : Nat) : Nat := rs.countP fun r => r.Has a

@[simp]
theorem cover_nil (a : Nat) : cover [] a = 0 := rfl

theorem cover_cons (r : Range) (rs : List Range) (a : Nat) :
    cover (r :: rs) a = cover rs a + if r.Has a then 1 else 0 := by
  simp [cover, List.countP_cons]

@[simp]
theorem cover_append (rs ss : List Range) (a : Nat) :
    cover (rs ++ ss) a = cover rs a + cover ss a :=
  List.countP_append

theorem cover_perm (perm : rs.Perm ss) (a : Nat) : cover rs a = cover ss a := perm.countP_eq _

theorem cover_join (x n k : Nat) (rs : List Range) (a : Nat) :
    cover (⟨x, n⟩ :: ⟨x + n, k⟩ :: rs) a = cover (⟨x, n + k⟩ :: rs) a := by
  simp only [cover_cons]
  split_ifs <;> simp only [Range.Has] at * <;> omega

theorem cover_pos : 0 < cover rs a ↔ ∃ r ∈ rs, r.Has a := by
  simp [cover, List.countP_pos_iff]

theorem pairwise_disjoint_iff : rs.Pairwise Range.Disjoint ↔ ∀ a, cover rs a ≤ 1 := by
  induction rs with
  | nil => simp
  | cons r rs ih =>
    rw [List.pairwise_cons, ih]
    constructor
    · rintro ⟨first, rest⟩ a
      rw [cover_cons]
      split
      next has =>
        -- an address of the first range is in no other one
        have none : ¬ 0 < cover rs a := fun positive => by
          obtain ⟨s, member, other⟩ := cover_pos.mp positive
          exact first s member a ⟨has, other⟩
        omega
      next => exact rest a
    · intro once
      refine ⟨fun s member a both => ?_, fun a => ?_⟩
      · have := once a
        have := cover_pos.mpr ⟨s, member, both.2⟩
        rw [cover_cons, if_pos both.1] at *
        omega
      · have := once a
        rw [cover_cons] at this
        omega

theorem sum_cover {x n : Nat} (inside : ∀ r ∈ rs, x ≤ r.start ∧ r.start + r.size ≤ x + n) :
    ∑ a ∈ Finset.Ico x (x + n), cover rs a = (rs.map Range.size).sum := by
  induction rs with
  | nil => simp
  | cons r rs ih =>
    obtain ⟨low, high⟩ := inside r List.mem_cons_self
    have own : (Finset.Ico x (x + n)).filter r.Has = Finset.Ico r.start (r.start + r.size) := by
      ext a
      simp only [Finset.mem_filter, Finset.mem_Ico, Range.Has]
      omega
    simp only [cover_cons]
    rw [Finset.sum_add_distrib, ih fun s member => inside s (List.mem_cons_of_mem r member),
      Finset.sum_boole, own, Nat.card_Ico, List.map_cons, List.sum_cons, Nat.add_comm]
    simp

/-- Disjoint ranges inside a range are together not larger than it. -/
theorem sum_size_le (disjoint : rs.Pairwise Range.Disjoint)
    (inside : ∀ r ∈ rs, whole.start ≤ r.start ∧ r.start + r.size ≤ whole.start + whole.size) :
    (rs.map Range.size).sum ≤ whole.size := by
  rw [← sum_cover inside]
  have each := Finset.sum_le_sum fun a (_ : a ∈ Finset.Ico whole.start (whole.start + whole.size)) =>
    pairwise_disjoint_iff.mp disjoint a
  simpa using each

/-- The ranges cover every address of a range once, and no other address. -/
def Tiles (rs : List Range) (whole : Range) : Prop := ∀ a, cover rs a = if whole.Has a then 1 else 0

theorem Tiles.congr (tiles : Tiles rs whole) (same : ∀ a, cover ss a = cover rs a) :
    Tiles ss whole := fun a => (same a).trans (tiles a)

theorem tiles_nil (x : Nat) : Tiles [] ⟨x, 0⟩ := fun a => by
  rw [if_neg fun has => absurd has.1 (Nat.not_le.mpr has.2), cover_nil]

theorem tiles_singleton (r : Range) : Tiles [r] r := fun a => by
  rw [cover_cons, cover_nil, Nat.zero_add]

theorem Tiles.append {x n k : Nat} (first : Tiles rs ⟨x, n⟩) (second : Tiles ss ⟨x + n, k⟩) :
    Tiles (rs ++ ss) ⟨x, n + k⟩ := fun a => by
  have join := cover_join x n k [] a
  simp only [cover_cons, cover_nil, Nat.zero_add] at join
  rw [cover_append, first a, second a, ← join, Nat.add_comm]

theorem Tiles.has (tiles : Tiles rs whole) (member : r ∈ rs) (has : r.Has a) : whole.Has a := by
  by_contra outside
  have positive := cover_pos.mpr ⟨r, member, has⟩
  rw [tiles a, if_neg outside] at positive
  exact absurd positive (lt_irrefl 0)

theorem Tiles.inside (tiles : Tiles rs whole) (member : r ∈ rs) (positive : 0 < r.size) :
    whole.start ≤ r.start ∧ r.start + r.size ≤ whole.start + whole.size := by
  have first := tiles.has member (Range.has_start positive)
  have last := tiles.has member (a := r.start + r.size - 1) ⟨by omega, by omega⟩
  simp only [Range.Has] at first last
  omega

/-- Covering each address once is being a partition. -/
theorem tiles_iff :
    Tiles rs whole ↔ rs.Pairwise Range.Disjoint ∧ ∀ a, whole.Has a ↔ ∃ r ∈ rs, r.Has a := by
  constructor
  · intro tiles
    refine ⟨pairwise_disjoint_iff.mpr fun a => ?_, fun a => ?_⟩
    · rw [tiles a]
      split <;> omega
    · rw [← cover_pos, tiles a]
      split <;> simp [*]
  · rintro ⟨disjoint, covered⟩ a
    have once := pairwise_disjoint_iff.mp disjoint a
    split
    next inside =>
      have := cover_pos.mpr ((covered a).mp inside)
      omega
    next outside =>
      have := cover_pos.not.mpr (mt (covered a).mpr outside)
      omega

end Xrt.Lib
