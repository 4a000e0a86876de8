import Xrt.Lib.ByteMemory

/-!
# What an operation on memory depends on

The bits of a byte memory, and operations that change only some of them. An operation may look at
some bits to decide what it writes (its sources); what it makes of any bit depends on that bit and on
the sources only. Operations that do not touch each other's bits commute.
-/
namespace Xrt.Lib

abbrev Bit := BitVec 64 × Nat

def bitAt (m : ByteMem) (b : Bit) : Bool := (m b.1).getLsbD b.2

theorem ext_bitAt {m n : ByteMem} (same : ∀ b, bitAt m b = bitAt n b) : m = n := by
  funext a
  apply BitVec.eq_of_getLsbD_eq
  intro k _
  exact same (a, k)

/-- The place of bit `k` of the word at `a`. -/
def bitOf (a : BitVec 64) (k : Nat) : Bit := (a + BitVec.ofNat 64 (k / 8), k % 8)

/-- The bits of the word at `a` that are set in the mask. -/
def masked (a : BitVec 64) (mask : BitVec 32) : Set Bit := {b | ∃ k, mask.getLsbD k ∧ b = bitOf a k}

variable {m n : ByteMem} {a : BitVec 64}

theorem getLsbD_read32 (m : ByteMem) (a : BitVec 64) {k : Nat} (small : k < 32) :
    (read32 m a).getLsbD k = bitAt m (bitOf a k) := by
  have byte : ∀ i, k / 8 = i → (m (a + BitVec.ofNat 64 i)).getLsbD (k % 8) = bitAt m (bitOf a k) := by
    rintro _ rfl
    rfl
  unfold read32
  simp only [BitVec.getLsbD_append]
  -- the byte that holds the bit
  by_cases first : k < 8
  · rw [← byte 0 (by omega), if_pos first, BitVec.add_zero, Nat.mod_eq_of_lt first]
  · by_cases second : k < 16
    · rw [← byte 1 (by omega), if_neg first, if_pos (by omega)]
      congr 1
      omega
    · by_cases third : k < 24
      · rw [← byte 2 (by omega), if_neg first, if_neg (by omega), if_pos (by omega)]
        congr 1
        omega
      · rw [← byte 3 (by omega), if_neg first, if_neg (by omega), if_neg (by omega)]
        congr 1
        omega

/-! ### Writing part of a word -/

def merge (m : ByteMem) (a : BitVec 64) (keep new : BitVec 32) : ByteMem :=
  write32 m a (read32 m a &&& keep ||| new)

theorem write32_eq_merge (m : ByteMem) (a : BitVec 64) (v : BitVec 32) :
    write32 m a v = merge m a 0 v := by
  unfold merge
  congr 1
  simp

theorem bitAt_write32_of_outside (v : BitVec 32) {b : Bit} (outside : ¬ (b.1 - a).toNat < 4) :
    bitAt (write32 m a v) b = bitAt m b := by
  unfold bitAt write32
  rw [if_neg outside]

theorem bit_cases {b : Bit} (inside : (b.1 - a).toNat < 4) :
    (∃ k < 32, b = bitOf a k) ∨ 8 ≤ b.2 := by
  rcases Nat.lt_or_ge b.2 8 with small | large
  · left
    refine ⟨8 * (b.1 - a).toNat + b.2, by omega, ?_⟩
    have byte : (8 * (b.1 - a).toNat + b.2) / 8 = (b.1 - a).toNat := by omega
    have place : (8 * (b.1 - a).toNat + b.2) % 8 = b.2 := by omega
    rw [bitOf, byte, place, BitVec.ofNat_toNat, BitVec.setWidth_eq]
    ext1
    · bv_omega
    · rfl
  · exact Or.inr large

theorem bitAt_write32_bitOf (m : ByteMem) (a : BitVec 64) (v : BitVec 32) {k : Nat} (small : k < 32) :
    bitAt (write32 m a v) (bitOf a k) = v.getLsbD k := by
  rw [← getLsbD_read32 _ _ small, read32_write32_self]

theorem bitAt_of_large (m : ByteMem) {b : Bit} (large : 8 ≤ b.2) : bitAt m b = false :=
  BitVec.getLsbD_of_ge _ _ large

theorem bitAt_merge_bitOf (m : ByteMem) (a : BitVec 64) (keep new : BitVec 32) {k : Nat}
    (small : k < 32) : bitAt (merge m a keep new) (bitOf a k)
      = (bitAt m (bitOf a k) && keep.getLsbD k || new.getLsbD k) := by
  rw [merge, bitAt_write32_bitOf m a _ small, BitVec.getLsbD_or, BitVec.getLsbD_and,
    getLsbD_read32 m a small]

/-! ### Sources and changes -/

/-- The operation changes only bits of `changes`, and what it makes of a bit depends on this bit and
the bits of `sources`. -/
structure Acts (op : ByteMem → ByteMem) (sources changes : Set Bit) : Prop where
  frame : ∀ m, ∀ b ∉ changes, bitAt (op m) b = bitAt m b
  same : ∀ m n, (∀ b ∈ sources, bitAt m b = bitAt n b) → ∀ b, bitAt m b = bitAt n b →
    bitAt (op m) b = bitAt (op n) b

theorem acts_merge (a : BitVec 64) (keep new : BitVec 32) :
    Acts (fun m => merge m a keep new) ∅ (masked a (~~~ keep ||| new)) where
  frame m b unchanged := by
    by_cases inside : (b.1 - a).toNat < 4
    · rcases bit_cases inside with ⟨k, small, rfl⟩ | large
      · have kept : ¬ (~~~ keep ||| new).getLsbD k = true := fun set => unchanged ⟨k, set, rfl⟩
        simp only [BitVec.getLsbD_or, BitVec.getLsbD_not, small, decide_true, Bool.true_and,
          Bool.or_eq_true, Bool.not_eq_true', not_or, Bool.not_eq_false, Bool.not_eq_true] at kept
        rw [bitAt_merge_bitOf m a keep new small, kept.1, kept.2, Bool.and_true, Bool.or_false]
      · rw [bitAt_of_large _ large, bitAt_of_large _ large]
    · exact bitAt_write32_of_outside _ inside
  same m n _ b equal := by
    by_cases inside : (b.1 - a).toNat < 4
    · rcases bit_cases inside with ⟨k, small, rfl⟩ | large
      · rw [bitAt_merge_bitOf m a keep new small, bitAt_merge_bitOf n a keep new small, equal]
      · rw [bitAt_of_large _ large, bitAt_of_large _ large]
    · rw [merge, merge, bitAt_write32_of_outside _ inside, bitAt_write32_of_outside _ inside, equal]

variable {op first second : ByteMem → ByteMem} {A B S T U : Set Bit}

theorem Acts.mono (acts : Acts op A T) (more : T ⊆ U) : Acts op A U :=
  ⟨fun m b outside => acts.frame m b fun inside => outside (more inside), acts.same⟩

theorem Acts.comp (acts : Acts first A T) (next : Acts second ∅ U) :
    Acts (fun m => second (first m)) A (T ∪ U) where
  frame m b outside := by
    rw [Set.mem_union, not_or] at outside
    rw [next.frame _ b outside.2, acts.frame m b outside.1]
  same m n agree b equal := by
    refine next.same _ _ ?_ b (acts.same m n agree b equal)
    rintro _ ⟨⟩

theorem masked_subset (a : BitVec 64) (x : BitVec 32) : masked a x ⊆ masked a (BitVec.allOnes 32) := by
  rintro b ⟨k, set, rfl⟩
  refine ⟨k, ?_, rfl⟩
  rw [BitVec.getLsbD_allOnes]
  exact decide_eq_true (BitVec.lt_of_getLsbD set)

theorem disjoint_masked {a b : BitVec 64} (apart : Apart a b) (x y : BitVec 32) :
    Disjoint (masked a x) (masked b y) := by
  refine Set.disjoint_left.mpr ?_
  rintro _ ⟨k, set, rfl⟩ ⟨j, set', same⟩
  have small : k < 32 := BitVec.lt_of_getLsbD set
  have small' : j < 32 := BitVec.lt_of_getLsbD set'
  obtain ⟨before, after⟩ := apart
  have bytes : a + BitVec.ofNat 64 (k / 8) = b + BitVec.ofNat 64 (j / 8) := congrArg Prod.fst same
  have bound : k / 8 < 4 := by omega
  have bound' : j / 8 < 4 := by omega
  bv_omega

theorem acts_replace (a : BitVec 64) (mask v : BitVec 32) :
    Acts (fun m => merge m a (~~~ mask) (v &&& mask)) ∅ (masked a mask) := by
  have all : ~~~ ~~~ mask ||| v &&& mask = mask := by
    apply BitVec.eq_of_getLsbD_eq
    intro k small
    rw [BitVec.not_not, BitVec.getLsbD_or, BitVec.getLsbD_and]
    cases mask.getLsbD k
    · rw [Bool.and_false, Bool.or_false]
    · rw [Bool.true_or]
  have acts := acts_merge a (~~~ mask) (v &&& mask)
  rwa [all] at acts

theorem bitAt_replace (m n : ByteMem) (mask v : BitVec 32) {b : Bit} (inside : b ∈ masked a mask) :
    bitAt (merge m a (~~~ mask) (v &&& mask)) b = bitAt (merge n a (~~~ mask) (v &&& mask)) b := by
  obtain ⟨k, set, rfl⟩ := inside
  have small : k < 32 := BitVec.lt_of_getLsbD set
  rw [bitAt_merge_bitOf m a _ _ small, bitAt_merge_bitOf n a _ _ small]
  simp [set]

theorem acts_of_value {β : Type*} {g : ByteMem → β} {f : β → ByteMem → ByteMem}
    (taken : ∀ m n, (∀ b ∈ A, bitAt m b = bitAt n b) → g m = g n)
    (acts : ∀ x, Acts (f x) ∅ T) : Acts (fun m => f (g m) m) A T where
  frame m := (acts (g m)).frame m
  same m n agree b equal := by
    rw [taken m n agree]
    refine (acts (g n)).same m n ?_ b equal
    rintro _ ⟨⟩

theorem read32_and_congr {mask : BitVec 32} (agree : ∀ b ∈ masked a mask, bitAt m b = bitAt n b) :
    read32 m a &&& mask = read32 n a &&& mask := by
  apply BitVec.eq_of_getLsbD_eq
  intro k small
  rw [BitVec.getLsbD_and, BitVec.getLsbD_and, getLsbD_read32 m a small, getLsbD_read32 n a small]
  by_cases set : mask.getLsbD k = true
  · rw [agree (bitOf a k) ⟨k, set, rfl⟩]
  · simp [set]

theorem read32_congr (agree : ∀ b ∈ masked a (BitVec.allOnes 32), bitAt m b = bitAt n b) :
    read32 m a = read32 n a := by
  rw [← BitVec.and_allOnes (x := read32 m a), read32_and_congr agree, BitVec.and_allOnes]

/-! ### Agreement off a set of bits -/

def AgreeOff (S : Set Bit) (m n : ByteMem) : Prop := ∀ b ∉ S, bitAt m b = bitAt n b

/-- An operation with its sources off the set keeps the agreement. -/
theorem Acts.agreeOff (acts : Acts op A T) (apart : Disjoint A S) (agree : AgreeOff S m n) :
    AgreeOff S (op m) (op n) := by
  intro b outside
  apply acts.same m n _ b (agree b outside)
  exact fun c source => agree c (Set.disjoint_left.mp apart source)

/-- Operations commute if neither touches the bits that the other looks at or changes. -/
theorem Acts.comm (acts : Acts first A T) (acts' : Acts second B U) (apart : Disjoint T U)
    (sources : Disjoint A U) (sources' : Disjoint B T) (m : ByteMem) :
    second (first m) = first (second m) := by
  apply ext_bitAt
  intro b
  by_cases changed : b ∈ T
  · have kept : b ∉ U := Set.disjoint_left.mp apart changed
    rw [acts'.frame _ b kept]
    apply acts.same
    · exact fun c source => (acts'.frame m c (Set.disjoint_left.mp sources source)).symm
    · exact (acts'.frame m b kept).symm
  · rw [acts.frame _ b changed]
    apply acts'.same
    · exact fun c source => acts.frame m c (Set.disjoint_left.mp sources' source)
    · exact acts.frame m b changed

/-! ### Places -/

theorem mem_region_of_masked {b : Bit} {mask : BitVec 32} (inside : b ∈ masked a mask) :
    b.1 ∈ region a 4 := by
  obtain ⟨k, set, rfl⟩ := inside
  have small := BitVec.lt_of_getLsbD set
  change (a + BitVec.ofNat 64 (k / 8) - a).toNat < 4
  bv_omega

/-- What the operation makes of the given places depends on them alone, and it leaves all others. -/
def Confined (places : Set (BitVec 64)) (op : ByteMem → ByteMem) : Prop :=
  ∀ m n, Set.EqOn m n places → Set.EqOn (op m) (op n) places ∧ Set.EqOn (op m) m placesᶜ

variable {places : Set (BitVec 64)}

theorem Acts.confined (acts : Acts op A T) (inside : ∀ b ∈ A ∪ T, b.1 ∈ places) :
    Confined places op := by
  refine fun m n agree => ⟨fun a here => ?_, fun a outside => ?_⟩
  · refine BitVec.eq_of_getLsbD_eq fun k _ => acts.same m n (fun b source => ?_) (a, k) ?_
    · rw [bitAt, bitAt, agree (inside b (Or.inl source))]
    · rw [bitAt, bitAt, agree here]
  · exact BitVec.eq_of_getLsbD_eq fun k _ =>
      acts.frame m (a, k) fun change => outside (inside _ (Or.inr change))

theorem Confined.foldl {α : Type*} {step : ByteMem → α → ByteMem} {xs : List α}
    (each : ∀ x ∈ xs, Confined places (step · x)) : Confined places (xs.foldl step) := by
  intro m n agree
  induction xs generalizing m n with
  | nil => exact ⟨agree, Set.eqOn_refl m _⟩
  | cons x xs ih =>
    obtain ⟨first, rest⟩ := List.forall_mem_cons.mp each
    obtain ⟨agree, kept⟩ := first m n agree
    obtain ⟨after, frame⟩ := ih rest _ _ agree
    exact ⟨after, frame.trans kept⟩

end Xrt.Lib
